import Manuscript.Text.Decimal

/-! Slugs. A slug is made of the runs of ASCII letters and digits of a text, in lower case, with
single dashes between them; an allocator gives each slug out once. Main statement: allocation always
finds a free slug. -/
namespace Manuscript.Slug

def isSlugChar (c : Char) : Bool :=
  (48 ≤ c.toNat && c.toNat ≤ 57) || (65 ≤ c.toNat && c.toNat ≤ 90) ||
    (97 ≤ c.toNat && c.toNat ≤ 122)

def lower (c : Char) : Char := if 65 ≤ c.toNat ∧ c.toNat ≤ 90 then Char.ofNat (c.toNat + 32) else c

/-- What is left to write after a character of a run, `dash` telling whether the run was broken. -/
def tail (dash : Bool) : List Char → List Char
  | [] => []
  | c :: s =>
    if isSlugChar c then
      if dash then '-' :: lower c :: tail false s else lower c :: tail false s
    else tail true s

def slugChars (s : List Char) : List Char :=
  match s.dropWhile fun c => !isSlugChar c with
  | [] => []
  | c :: rest => lower c :: tail false rest

def slugify (s : String) : String := String.ofList (slugChars s.toList)

structure Allocator where
  used : List String
  deriving DecidableEq, Repr, Inhabited

namespace Allocator

def empty : Allocator := ⟨[]⟩

def reserve (a : Allocator) (slug : String) : Allocator := ⟨slug :: a.used⟩

def suffixed (base : String) (n : Nat) : String := base ++ "-" ++ Text.decimal n

def baseOf (base : String) : String := if base.isEmpty then "section" else base

/-- The first `k` from `n` on such that `base-k` is free. A slug in the way is struck off the list,
for no later one is equal to it. -/
def firstFree (used : List String) (base : String) (n : Nat) : Nat :=
  if suffixed base n ∈ used then firstFree (used.erase (suffixed base n)) base (n + 1) else n
termination_by used.length
decreasing_by
  rename_i h
  have := List.length_pos_of_mem h
  rw [List.length_erase_of_mem h]
  omega

/-- The free slug for a base: the base, or the first free one of `base-1`, `base-2`, … -/
def choose (a : Allocator) (base : String) : String :=
  let base := baseOf base
  if base ∈ a.used then suffixed base (firstFree a.used base 1) else base

def allocate (a : Allocator) (base : String) : String × Allocator :=
  let slug := a.choose base
  (slug, ⟨slug :: a.used⟩)

theorem suffixed_injective {base : String} {m n : Nat} (h : suffixed base m = suffixed base n) :
    m = n := by
  apply Text.decimal_injective
  have := congrArg String.toList h
  simp only [suffixed, String.toList_append, List.append_cancel_left_eq] at this
  exact String.toList_inj.mp this

theorem le_firstFree (used : List String) (base : String) (n : Nat) :
    n ≤ firstFree used base n := by
  fun_induction firstFree used base n with
  | case1 used n _ ih => omega
  | case2 => exact Nat.le_refl _

theorem suffixed_firstFree_not_mem (used : List String) (base : String) (n : Nat) :
    suffixed base (firstFree used base n) ∉ used := by
  fun_induction firstFree used base n with
  | case1 used n h ih =>
    intro hm
    refine ih ((List.mem_erase_of_ne ?_).mpr hm)
    intro he
    have := suffixed_injective he
    have := le_firstFree (used.erase (suffixed base n)) base (n + 1)
    omega
  | case2 used n h => exact h

theorem choose_not_mem (a : Allocator) (base : String) : a.choose base ∉ a.used := by
  simp only [choose]
  split
  · exact suffixed_firstFree_not_mem _ _ _
  · assumption

end Allocator
end Manuscript.Slug
