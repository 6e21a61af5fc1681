/-! First occurrences. `cut p s` splits `s` around the first place where `p` occurs. Main
statements: nothing is lost, and a text without the pattern stays without it when its start is
dropped. -/
namespace Manuscript.Text

def cut (pattern : List Char) : List Char → Option (List Char × List Char)
  | [] => if pattern.isEmpty then some ([], []) else none
  | c :: s =>
    if pattern.isPrefixOf (c :: s) then some ([], (c :: s).drop pattern.length)
    else match cut pattern s with
      | some (before, after) => some (c :: before, after)
      | none => none

theorem eq_append_of_isPrefixOf {p s : List Char} (h : p.isPrefixOf s = true) :
    s = p ++ s.drop p.length := by
  obtain ⟨r, rfl⟩ := List.isPrefixOf_iff_prefix.mp h
  simp

theorem eq_of_cut {p s a b : List Char} (h : cut p s = some (a, b)) : s = a ++ (p ++ b) := by
  induction s generalizing a with
  | nil =>
    simp only [cut, List.isEmpty_iff] at h
    split at h <;> simp_all
  | cons c s ih =>
    simp only [cut] at h
    split at h
    · rename_i hp
      simp only [Option.some.injEq, Prod.mk.injEq] at h
      obtain ⟨rfl, rfl⟩ := h
      simpa using eq_append_of_isPrefixOf hp
    · split at h
      · rename_i he
        simp only [Option.some.injEq, Prod.mk.injEq] at h
        obtain ⟨rfl, rfl⟩ := h
        rw [ih he]
        rfl
      · cases h

theorem cut_drop_eq_none {p s : List Char} (h : cut p s = none) (n : Nat) :
    cut p (s.drop n) = none := by
  induction s generalizing n with
  | nil => simpa using h
  | cons c s ih =>
    cases n with
    | zero => simpa using h
    | succ n =>
      simp only [cut] at h
      split at h
      · cases h
      · split at h
        · cases h
        · rename_i he
          simpa using ih he n

end Manuscript.Text
