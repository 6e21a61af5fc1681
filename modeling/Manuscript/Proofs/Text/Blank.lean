import Mathlib.Data.List.DropRight
import Manuscript.Proofs.Text.Span
import Manuscript.Text.Blank

/-! Trimmed texts. A text is trimmed already if no blank stands at either end of it, as none does
after trimming. -/
namespace Manuscript.Text

variable {s t : List Char}

theorem ne_nil_of_visible (h : allBlank s = false) : s ≠ [] := by
  rintro rfl
  cases h

theorem trimStart_eq_self (h : ∀ c ∈ s.head?, isBlank c = false) : trimStart s = s := by
  cases s with
  | nil => rfl
  | cons c s => simp [trimStart, h c rfl]

theorem trimEnd_eq_self (h : ∀ c ∈ s.getLast?, isBlank c = false) : trimEnd s = s := by
  have hstart : trimStart s.reverse = s.reverse := by
    apply trimStart_eq_self
    rwa [List.head?_reverse]
  exact (congrArg List.reverse hstart).trans s.reverse_reverse

theorem trim_eq_self (h : ∀ c ∈ s, isBlank c = false) : trim s = s := by
  rw [trim, trimStart_eq_self fun c hc => h c (List.mem_of_mem_head? hc),
    trimEnd_eq_self fun c hc => h c (List.mem_of_mem_getLast? hc)]

theorem trimEnd_prefix (s : List Char) : trimEnd s <+: s := List.rdropWhile_prefix isBlank s

theorem trim_isInfix (s : List Char) : trim s <:+: s := by
  have hend := trimEnd_prefix (trimStart s)
  exact hend.isInfix.trans (List.dropWhile_suffix isBlank).isInfix

theorem head?_trim (s : List Char) : ∀ c ∈ (trim s).head?, isBlank c = false := by
  intro c hc
  obtain ⟨rest, hrest⟩ := trimEnd_prefix (trimStart s)
  have hhead : (trimStart s).head? = some c := by
    rw [← hrest, List.head?_append_of_ne_nil]
    · exact hc
    · rintro hnil
      rw [trim, hnil] at hc
      cases hc
  exact head?_dropWhile isBlank s c hhead

theorem getLast?_trim (s : List Char) : ∀ c ∈ (trim s).getLast?, isBlank c = false := by
  intro c hc
  rw [trim, trimEnd, List.getLast?_reverse] at hc
  exact head?_dropWhile isBlank _ c hc

theorem trim_trim (s : List Char) : trim (trim s) = trim s := by
  rw [trim.eq_1 (trim s), trimStart_eq_self (head?_trim s), trimEnd_eq_self (getLast?_trim s)]

theorem trimStart_blank_append (ht : allBlank t = true) (s : List Char) :
    trimStart (t ++ s) = trimStart s :=
  List.dropWhile_append_of_pos (List.all_eq_true.mp ht)

theorem trimEnd_append_blank (s : List Char) (ht : allBlank t = true) :
    trimEnd (s ++ t) = trimEnd s := by
  have hblank : allBlank t.reverse = true := (List.all_reverse ..).trans ht
  rw [trimEnd, List.reverse_append]
  exact congrArg List.reverse (trimStart_blank_append hblank s.reverse)

theorem trim_blank_append (ht : allBlank t = true) (s : List Char) : trim (t ++ s) = trim s :=
  congrArg trimEnd (trimStart_blank_append ht s)

theorem trim_append_blank (s : List Char) (ht : allBlank t = true) : trim (s ++ t) = trim s := by
  cases hs : allBlank s with
  | true =>
    rw [trim_eq_nil_iff.mpr hs, trim_eq_nil_iff, allBlank, List.all_append, Bool.and_eq_true]
    exact ⟨hs, ht⟩
  | false =>
    have hstart : trimStart (s ++ t) = trimStart s ++ t := by
      rw [trimStart, List.dropWhile_append, if_neg]
      · rfl
      · rw [List.isEmpty_iff, dropWhile_eq_nil_iff]
        exact Bool.eq_false_iff.mp hs
    rw [trim, hstart]
    exact trimEnd_append_blank _ ht

theorem strip_strip (s : String) : strip (strip s) = strip s := by
  simp [strip, trim_trim]

end Manuscript.Text
