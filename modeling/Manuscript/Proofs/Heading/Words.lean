import Mathlib
import Manuscript.Proofs.Heading.Slug
import Manuscript.Proofs.Text.Split

/-! Slugs by words. The words of a text are its maximal runs of ASCII letters and digits. One pass over the
text, which remembers whether a dash is due, writes them in lower case with a dash between each two. So the
words of a slug are those of its text in lower case, a dash never stands without a word on both sides, and
a slug is its own slug. -/
namespace Manuscript.Slug

variable {c : Char} {s : List Char} {ws : List (List Char)}

theorem isSlugChar_eq (c : Char) : isSlugChar c = c.isAlphanum := by
  rw [Bool.eq_iff_iff]
  simp only [isSlugChar, Char.isAlphanum, Char.isAlpha, Char.isUpper, Char.isLower, Char.isDigit,
    UInt32.le_iff_toNat_le, ge_iff_le, Bool.or_eq_true, Bool.and_eq_true, decide_eq_true_eq]
  exact or_assoc.trans or_comm

theorem lower_eq (c : Char) : lower c = c.toLower := by
  have hupper : c.isUpper ↔ 65 ≤ c.toNat ∧ c.toNat ≤ 90 := by
    rw [Char.isUpper, decide_eq_true_iff, ge_iff_le, UInt32.le_iff_toNat_le, UInt32.le_iff_toNat_le]
    rfl
  rw [lower]
  by_cases h : c.isUpper
  · rw [if_pos (hupper.mp h), Char.toLower_eq_of_isUpper h]
  · rw [if_neg (mt hupper.mpr h), Char.toLower_eq_of_not_isUpper h]

/-! One pass over a text. -/

/-- What is written so far, and whether a dash is due before the next letter or digit. -/
structure Pass where
  slug : List Char
  due : Bool

def Pass.next (p : Pass) (c : Char) : Pass :=
  if c.isAlphanum then
    let slug := if p.due && !p.slug.isEmpty then p.slug ++ ['-'] else p.slug
    ⟨slug ++ [c.toLower], false⟩
  else { p with due := true }

def passed (s : List Char) : List Char := (s.foldl Pass.next ⟨[], false⟩).slug

theorem foldl_next_begun {slug : List Char} (hslug : slug ≠ []) (due : Bool) (s : List Char) :
    (s.foldl Pass.next ⟨slug, due⟩).slug = slug ++ tail due s := by
  induction s generalizing slug due with
  | nil => simp [tail]
  | cons c s ih =>
    rw [List.foldl_cons, Pass.next, tail, isSlugChar_eq, lower_eq]
    by_cases hc : c.isAlphanum
    · cases due with
      | false => simp [hc, ih]
      | true => simp [hc, hslug, ih]
    · simp [hc, ih hslug]

theorem slugChars_cons (c : Char) (s : List Char) :
    slugChars (c :: s) = if c.isAlphanum then c.toLower :: tail false s else slugChars s := by
  by_cases hc : c.isAlphanum
  · simp [slugChars, isSlugChar_eq, hc, lower_eq]
  · simp [slugChars, isSlugChar_eq, hc]

theorem foldl_next_empty (due : Bool) (s : List Char) :
    (s.foldl Pass.next ⟨[], due⟩).slug = slugChars s := by
  induction s generalizing due with
  | nil => rfl
  | cons c s ih =>
    rw [List.foldl_cons, Pass.next, slugChars_cons]
    by_cases hc : c.isAlphanum
    · simp [hc, foldl_next_begun]
    · simp [hc, ih]

/-! Words. -/

/-- The maximal runs of ASCII letters and digits: what lies between all other characters. -/
def words (s : List Char) : List (List Char) :=
  (s.splitOnP fun c => !c.isAlphanum).filter (!·.isEmpty)

def IsWord (w : List Char) : Prop := w ≠ [] ∧ ∀ c ∈ w, c.isAlphanum = true

theorem isWord_of_mem_words {w : List Char} (h : w ∈ words s) : IsWord w := by
  obtain ⟨hw, hne⟩ := List.mem_filter.mp h
  refine ⟨by simpa using hne, fun c hc => ?_⟩
  simpa using Text.of_mem_splitOnP hw c hc

theorem words_intercalate (h : ∀ w ∈ ws, IsWord w) : words (['-'].intercalate ws) = ws := by
  by_cases hne : ws = []
  · subst hne
    rfl
  · have hws : ∀ w ∈ ws, ∀ c ∈ w, (!c.isAlphanum) = false := fun w hw c hc => by
      rw [(h w hw).2 c hc]
      rfl
    rw [words, Text.splitOnP_intercalate (by decide) hne hws, List.filter_eq_self]
    intro w hw
    simpa using (h w hw).1

theorem words_cons_of_not (hc : ¬ c.isAlphanum) (s : List Char) : words (c :: s) = words s := by
  simp [words, List.splitOnP_cons_eq_if_modifyHead, hc]

theorem words_cons (hc : c.isAlphanum) (s : List Char) : words (c :: s) =
    (c :: s.takeWhile Char.isAlphanum) :: words (s.dropWhile Char.isAlphanum) := by
  have hsplit : c :: s = (c :: s.takeWhile Char.isAlphanum) ++ s.dropWhile Char.isAlphanum := by
    simp
  have hrun : ∀ d ∈ c :: s.takeWhile Char.isAlphanum, (!d.isAlphanum) = false := by
    intro d hd
    rcases List.mem_cons.mp hd with rfl | hd
    · simp [hc]
    · simp [List.mem_takeWhile_imp hd]
  cases hrest : s.dropWhile Char.isAlphanum with
  | nil =>
    rw [hsplit, hrest, List.append_nil, words, List.splitOnP_eq_singleton hrun]
    rfl
  | cons d rest =>
    have hd : d.isAlphanum = false := Text.head?_dropWhile _ s d (by rw [hrest]; rfl)
    rw [words_cons_of_not (c := d) (by simp [hd]), hsplit, hrest, words,
      List.splitOnP_append_cons_of_forall_mem hrun d (by simp [hd])]
    rfl

theorem words_eq_nil_iff : words s = [] ↔ ∀ c ∈ s, c.isAlphanum = false := by
  induction s with
  | nil => simp [words]
  | cons c s ih =>
    by_cases hc : c.isAlphanum
    · simp [words_cons hc, hc]
    · simp [words_cons_of_not hc, ih, hc]

def dashed (w : List Char) : List Char := '-' :: w.map Char.toLower

/-- After a break come whole words; else the word that has begun goes on first. -/
theorem tail_eq (s : List Char) : tail true s = (words s).flatMap dashed ∧
    tail false s = (s.takeWhile Char.isAlphanum).map Char.toLower ++
      (words (s.dropWhile Char.isAlphanum)).flatMap dashed := by
  induction s with
  | nil => exact ⟨rfl, rfl⟩
  | cons c s ih =>
    obtain ⟨hbroken, hbegun⟩ := ih
    by_cases hc : c.isAlphanum
    · have hword := words_cons hc s
      constructor <;> simp [tail, isSlugChar_eq, lower_eq, hc, hbegun, hword, dashed]
    · have hword := words_cons_of_not hc s
      constructor <;> simp [tail, isSlugChar_eq, hc, hbroken, hword]

theorem slugChars_eq (s : List Char) :
    slugChars s = ['-'].intercalate ((words s).map (List.map Char.toLower)) := by
  induction s with
  | nil => rfl
  | cons c s ih =>
    rw [slugChars_cons]
    by_cases hc : c.isAlphanum
    · rw [if_pos hc, (tail_eq s).2, words_cons hc, List.map_cons, Text.intercalate_cons,
        List.flatMap_map]
      rfl
    · rw [if_neg hc, ih, words_cons_of_not hc]

theorem isAlphanum_toLower (h : c.isAlphanum) : c.toLower.isAlphanum := by
  rw [← isSlugChar_eq] at h
  have := toNat_lower h
  rw [← lower_eq, ← isSlugChar_eq]
  simp only [isSlugChar, Bool.or_eq_true, Bool.and_eq_true, decide_eq_true_eq]
  omega

theorem isWord_of_mem_lowered {w : List Char} (h : w ∈ (words s).map (List.map Char.toLower)) :
    IsWord w := by
  obtain ⟨v, hv, rfl⟩ := List.mem_map.mp h
  obtain ⟨hne, hv⟩ := isWord_of_mem_words hv
  refine ⟨fun hnil => hne (List.map_eq_nil_iff.mp hnil), fun c hc => ?_⟩
  obtain ⟨d, hd, rfl⟩ := List.mem_map.mp hc
  exact isAlphanum_toLower (hv d hd)

theorem words_slugChars (s : List Char) :
    words (slugChars s) = (words s).map (List.map Char.toLower) := by
  rw [slugChars_eq]
  exact words_intercalate fun w hw => isWord_of_mem_lowered hw

theorem slugChars_slugChars (s : List Char) : slugChars (slugChars s) = slugChars s := by
  have htwice : List.map Char.toLower ∘ List.map Char.toLower = List.map Char.toLower := by
    funext w
    simp
  rw [slugChars_eq (slugChars s), words_slugChars, slugChars_eq s, List.map_map, htwice]

theorem dash_apart {a b : List Char} (h : slugChars s = a ++ '-' :: b) :
    a ≠ [] ∧ b ≠ [] ∧ b.head? ≠ some '-' := by
  rw [slugChars_eq] at h
  refine Text.separator_apart (fun w hw => ?_) h
  obtain ⟨hne, hw⟩ := isWord_of_mem_lowered hw
  exact ⟨hne, fun hdash => absurd (hw '-' hdash) (by decide)⟩

theorem head?_slugChars_ne (s : List Char) : (slugChars s).head? ≠ some '-' := by
  intro hhead
  obtain ⟨rest, hrest⟩ := List.head?_eq_some_iff.mp hhead
  exact (dash_apart (a := []) hrest).1 rfl

theorem getLast?_slugChars_ne (s : List Char) : (slugChars s).getLast? ≠ some '-' := by
  intro hlast
  obtain ⟨before, hbefore⟩ := List.getLast?_eq_some_iff.mp hlast
  exact (dash_apart hbefore).2.1 rfl

theorem not_infix_slugChars (s : List Char) : ¬ ['-', '-'] <:+: slugChars s := by
  rintro ⟨before, rest, hdashes⟩
  rw [List.append_assoc] at hdashes
  exact (dash_apart hdashes.symm).2.2 rfl

theorem isWritten_iff : IsWritten c ↔ c = '-' ∨ c.isDigit ∨ c.isLower := by
  simp only [IsWritten, Char.isDigit, Char.isLower, UInt32.le_iff_toNat_le, ge_iff_le,
    Bool.and_eq_true, decide_eq_true_eq]
  rfl

/-! Slugs as strings. -/

@[simp] theorem toList_slugify (text : String) : (slugify text).toList = slugChars text.toList :=
  String.toList_ofList

theorem slugify_eq_passed (text : String) : slugify text = String.ofList (passed text.toList) := by
  rw [passed, foldl_next_empty]
  rfl

theorem slugify_eq_intercalate (text : String) : slugify text =
    "-".intercalate ((words text.toList).map fun w => (String.ofList w).toLower) := by
  rw [← String.toList_inj, toList_slugify, slugChars_eq, String.toList_intercalate, List.map_map]
  congr 1
  apply List.map_congr_left
  intro w _
  simp [String.toLower, String.toList_map]

theorem slugify_eq_empty_iff (text : String) :
    slugify text = "" ↔ ∀ c ∈ text.toList, c.isAlphanum = false := by
  rw [← String.toList_eq_nil_iff, toList_slugify, slugChars_eq, ← words_eq_nil_iff]
  cases hwords : words text.toList with
  | nil => simp
  | cons w ws =>
    have hw : IsWord w := isWord_of_mem_words (hwords ▸ List.mem_cons_self)
    simp [Text.intercalate_cons, hw.1]

theorem slugify_slugify (text : String) : slugify (slugify text) = slugify text := by
  rw [slugify.eq_1 (slugify text), toList_slugify, slugChars_slugChars]
  rfl

/-- The slug of a text, written in one pass, is its words in lower case joined by single dashes, and empty
only if there are none. It is made of dashes, digits and lower-case letters, no dash stands at an end of it
or next to another, and it is the slug of itself. -/
theorem slugify_words (text : String) :
    let slug := slugify text
    slug = String.ofList (passed text.toList) ∧
      slug = "-".intercalate ((words text.toList).map fun w => (String.ofList w).toLower) ∧
      (slug = "" ↔ ∀ c ∈ text.toList, c.isAlphanum = false) ∧
      (∀ c ∈ slug.toList, c = '-' ∨ c.isDigit ∨ c.isLower) ∧
      slug.toList.head? ≠ some '-' ∧ slug.toList.getLast? ≠ some '-' ∧
      ¬ ['-', '-'] <:+: slug.toList ∧ slugify slug = slug := by
  intro slug
  have hslug : slug.toList = slugChars text.toList := toList_slugify text
  have hchars : ∀ c ∈ slug.toList, c = '-' ∨ c.isDigit ∨ c.isLower := by
    intro c hc
    rw [hslug] at hc
    exact isWritten_iff.mp (isWritten_of_mem hc)
  rw [hslug] at hchars ⊢
  exact ⟨slugify_eq_passed text, slugify_eq_intercalate text, slugify_eq_empty_iff text, hchars,
    head?_slugChars_ne _, getLast?_slugChars_ne _, not_infix_slugChars _, slugify_slugify text⟩

theorem slugify_words_umlauts :
    let text := " --Über Kettenbrüche (V2)∑ "
    words text.toList = ["ber".toList, "Kettenbr".toList, "che".toList, "V2".toList] ∧
      slugify text = "ber-kettenbr-che-v2" ∧ '2' ∈ (slugify text).toList ∧
      ('2' = '-' ∨ '2'.isDigit ∨ '2'.isLower) ∧
      slugify "ber-kettenbr-che-v2" = "ber-kettenbr-che-v2" := by
  intro text
  obtain ⟨-, hjoined, -, hchars, -, -, -, htwice⟩ := slugify_words text
  have hwords : words text.toList =
      ["ber".toList, "Kettenbr".toList, "che".toList, "V2".toList] := by decide +kernel
  have hslug : slugify text = "ber-kettenbr-che-v2" := by
    rw [hjoined, hwords]
    decide +kernel
  rw [hslug] at hchars htwice
  rw [hslug]
  exact ⟨hwords, rfl, by decide, hchars '2' (by decide), htwice⟩

end Manuscript.Slug
