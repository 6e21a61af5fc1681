import Manuscript.Heading.Slug
import Manuscript.Proofs.Text.Blank

/-! What slugs are made of: dashes, digits and lower-case letters. -/
namespace Manuscript.Slug

variable {c : Char}

theorem toNat_lower (h : isSlugChar c = true) :
    (48 ≤ (lower c).toNat ∧ (lower c).toNat ≤ 57) ∨
      (97 ≤ (lower c).toNat ∧ (lower c).toNat ≤ 122) := by
  simp only [isSlugChar, Bool.or_eq_true, Bool.and_eq_true, decide_eq_true_eq] at h
  rw [lower]
  split
  · next hupper =>
    have hvalid : (c.toNat + 32).isValidChar := .inl (by omega)
    have hn : (Char.ofNat (c.toNat + 32)).toNat = c.toNat + 32 := by
      rw [Char.ofNat, dif_pos hvalid]
      rfl
    omega
  · omega

def IsWritten (c : Char) : Prop :=
  c = '-' ∨ (48 ≤ c.toNat ∧ c.toNat ≤ 57) ∨ (97 ≤ c.toNat ∧ c.toNat ≤ 122)

theorem isWritten_of_mem_tail {dash : Bool} {s : List Char} (h : c ∈ tail dash s) :
    IsWritten c := by
  induction s generalizing dash with
  | nil => cases h
  | cons d s ih =>
    rw [tail] at h
    split at h
    · next hd =>
      have hlower : IsWritten (lower d) := .inr (toNat_lower hd)
      split at h
      · rcases List.mem_cons.mp h with rfl | h
        · exact .inl rfl
        · rcases List.mem_cons.mp h with rfl | h
          · exact hlower
          · exact ih h
      · rcases List.mem_cons.mp h with rfl | h
        · exact hlower
        · exact ih h
    · exact ih h

theorem isWritten_of_mem {s : List Char} (h : c ∈ slugChars s) : IsWritten c := by
  rw [slugChars] at h
  split at h
  · cases h
  · next d rest hd =>
    rcases List.mem_cons.mp h with rfl | h
    · have hslug := List.head?_dropWhile_not (fun c => !isSlugChar c) s
      rw [hd] at hslug
      exact .inr (toNat_lower (by simpa using hslug))
    · exact isWritten_of_mem_tail h

theorem IsWritten.not_isBlank (h : IsWritten c) : Text.isBlank c = false := by
  rcases h with rfl | h
  · decide
  · simp only [Text.isBlank, Bool.or_eq_false_iff, Bool.and_eq_false_iff, decide_eq_false_iff_not,
      beq_eq_false_iff_ne]
    omega

theorem strip_slugify (s : String) : Text.strip (slugify s) = slugify s := by
  have htrim : Text.trim (slugChars s.toList) = slugChars s.toList :=
    Text.trim_eq_self fun c hc => (isWritten_of_mem hc).not_isBlank
  simp [Text.strip, slugify, htrim]

end Manuscript.Slug
