import Manuscript.Heading.Extract

/-! Headings with their slugs, which are given out in order. Main statements: headings in two parts get
the slugs that the parts get one after the other, and each slug is the first that is free of those given
out before it. -/
namespace Manuscript.Slug.Allocator

variable {taken taken' : List String} {base slug : String} {used : List String}

/-- The slug for a base when these are taken: the base if it is free, else the first free one of
`base-1`, `base-2`, … -/
def FirstFree (taken : List String) (base slug : String) : Prop :=
  slug ∉ taken ∧ (slug = base ∨ base ∈ taken ∧ ∃ n, 1 ≤ n ∧ slug = suffixed base n ∧
    ∀ m, 1 ≤ m → m < n → suffixed base m ∈ taken)

theorem FirstFree.congr (h : FirstFree taken base slug) (hmem : ∀ s, s ∈ taken ↔ s ∈ taken') :
    FirstFree taken' base slug := by
  obtain ⟨hfree, hslug⟩ := h
  refine ⟨fun htaken => hfree ((hmem slug).mpr htaken), ?_⟩
  rcases hslug with hbase | ⟨hbase, n, hn, hslug, hearlier⟩
  · exact .inl hbase
  · exact .inr ⟨(hmem base).mp hbase, n, hn, hslug, fun m hm hlt => (hmem _).mp (hearlier m hm hlt)⟩

theorem suffixed_mem_of_lt_firstFree (used : List String) (base : String) (n : Nat) :
    ∀ m, n ≤ m → m < firstFree used base n → suffixed base m ∈ used := by
  fun_induction firstFree used base n with
  | case1 used n htaken ih =>
    intro m hle hlt
    rcases Nat.eq_or_lt_of_le hle with rfl | hlater
    · exact htaken
    · exact List.mem_of_mem_erase (ih m hlater hlt)
  | case2 used n => exact fun m hle hlt => absurd hlt (Nat.not_lt.mpr hle)

theorem firstFree_choose (a : Allocator) (base : String) :
    FirstFree a.used (baseOf base) (a.choose base) := by
  refine ⟨choose_not_mem a base, ?_⟩
  rw [choose]
  split
  · next htaken =>
    exact .inr ⟨htaken, _, le_firstFree _ _ 1, rfl, suffixed_mem_of_lt_firstFree _ _ 1⟩
  · exact .inl rfl

end Manuscript.Slug.Allocator

namespace Manuscript.Heading

open Slug.Allocator (FirstFree baseOf)

theorem withSlugs_append (file : String) (a : Slug.Allocator) (fs gs : List Found) :
    withSlugs file a (fs ++ gs) =
      let first := withSlugs file a fs
      let second := withSlugs file first.2 gs
      (first.1 ++ second.1, second.2) := by
  induction fs generalizing a with
  | nil => rfl
  | cons f fs ih => simp only [List.cons_append, withSlugs, ih]

theorem contents_withSlugs (file : String) (a : Slug.Allocator) (fs : List Found) :
    (withSlugs file a fs).1.map (fun h => (h.level, h.text, h.file)) =
      fs.map fun f => (f.level, String.ofList f.text, file) := by
  induction fs generalizing a with
  | nil => rfl
  | cons f fs ih => exact congrArg _ (ih (a.allocate (Slug.slugify (String.ofList f.text))).2)

theorem firstFree_of_withSlugs {file : String} {a : Slug.Allocator} {fs : List Found}
    {before after : List Heading} {h : Heading}
    (hsplit : (withSlugs file a fs).1 = before ++ h :: after) :
    FirstFree ((before.map Heading.slug).reverse ++ a.used) (baseOf (Slug.slugify h.text))
      h.slug := by
  induction fs generalizing a before with
  | nil => exact absurd hsplit.symm (by simp [withSlugs])
  | cons f fs ih =>
    cases before with
    | nil =>
      obtain ⟨rfl, -⟩ := List.cons.inj hsplit
      exact Slug.Allocator.firstFree_choose a _
    | cons b before =>
      obtain ⟨rfl, hrest⟩ := List.cons.inj hsplit
      rw [List.map_cons, List.reverse_cons, List.append_assoc]
      exact ih hrest

end Manuscript.Heading
