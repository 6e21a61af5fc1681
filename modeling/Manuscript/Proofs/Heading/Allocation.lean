import Mathlib.Data.List.Nodup
import Manuscript.Heading.Extract

/-! Runs of one slug allocator. Each step hands out slugs that were free before it, no two alike, and
leaves them taken; two stretches of a run that do so make one that does, hence so does a whole run,
whatever bases and headings it is given. -/
namespace Manuscript.Slug

inductive Step
  | reserve (slug : String)
  | allocate (base : String)
  | extract (file text : String)
  deriving DecidableEq, Repr

inductive Answer
  | reserved
  | slug (slug : String)
  | headings (headings : List Heading)
  deriving DecidableEq, Repr

def Answer.slugs : Answer → List String
  | reserved => []
  | slug s => [s]
  | headings hs => hs.map Heading.slug

namespace Allocator

def answer (a : Allocator) : Step → Answer × Allocator
  | .reserve slug => (.reserved, a.reserve slug)
  | .allocate base =>
    let (slug, a) := a.allocate base
    (.slug slug, a)
  | .extract file text =>
    let (headings, a) := Heading.extractWith file text a
    (.headings headings, a)

def after (a : Allocator) (steps : List Step) : Allocator :=
  steps.foldl (fun a step => (a.answer step).2) a

def answers (a : Allocator) : List Step → List Answer
  | [] => []
  | step :: steps => (a.answer step).1 :: answers (a.answer step).2 steps

variable {a b c : Allocator} {slug : String} {slugs more : List String}

/-- From `a` to `b` these slugs are handed out. -/
structure Hands (a : Allocator) (slugs : List String) (b : Allocator) : Prop where
  nodup : slugs.Nodup
  free : ∀ slug ∈ slugs, slug ∉ a.used
  taken : ∀ slug ∈ slugs, slug ∈ b.used
  kept : a.used ⊆ b.used

theorem Hands.refl (a : Allocator) : Hands a [] a :=
  ⟨List.nodup_nil, List.forall_mem_nil _, List.forall_mem_nil _, List.Subset.refl _⟩

/-- What comes later is free of what came before, which is taken by then. -/
theorem Hands.trans (h : Hands a slugs b) (h' : Hands b more c) : Hands a (slugs ++ more) c where
  nodup := by
    refine List.nodup_append.mpr ⟨h.nodup, h'.nodup, ?_⟩
    rintro slug hs slug' hs' rfl
    exact h'.free slug hs' (h.taken slug hs)
  free := by
    intro slug hs
    rcases List.mem_append.mp hs with hs | hs
    · exact h.free slug hs
    · exact fun hused => h'.free slug hs (h.kept hused)
  taken := by
    intro slug hs
    rcases List.mem_append.mp hs with hs | hs
    · exact h'.kept (h.taken slug hs)
    · exact h'.taken slug hs
  kept := List.Subset.trans h.kept h'.kept

theorem hands_reserve (a : Allocator) (slug : String) : Hands a [] (a.reserve slug) :=
  ⟨List.nodup_nil, List.forall_mem_nil _, List.forall_mem_nil _, List.subset_cons_self slug _⟩

theorem hands_allocate (a : Allocator) (base : String) :
    Hands a [(a.allocate base).1] (a.allocate base).2 where
  nodup := List.nodup_singleton _
  free := by
    intro slug hs
    rw [List.mem_singleton.mp hs]
    exact choose_not_mem a base
  taken := by
    intro slug hs
    rw [List.mem_singleton.mp hs]
    exact List.mem_cons_self
  kept := List.subset_cons_self _ _

theorem hands_withSlugs (file : String) (a : Allocator) (found : List Heading.Found) :
    Hands a ((Heading.withSlugs file a found).1.map Heading.slug)
      (Heading.withSlugs file a found).2 := by
  induction found generalizing a with
  | nil => exact .refl a
  | cons f found ih => exact (hands_allocate a (slugify (String.ofList f.text))).trans (ih _)

theorem hands_answer (a : Allocator) (step : Step) :
    Hands a (a.answer step).1.slugs (a.answer step).2 := by
  cases step with
  | reserve slug => exact hands_reserve a slug
  | allocate base => exact hands_allocate a base
  | extract file text => exact hands_withSlugs file a (Heading.found text.toList)

/-! Whole runs. -/

theorem hands_answers (a : Allocator) (steps : List Step) :
    Hands a ((a.answers steps).flatMap Answer.slugs) (a.after steps) := by
  induction steps generalizing a with
  | nil => exact .refl a
  | cons step steps ih => exact (hands_answer a step).trans (ih (a.answer step).2)

theorem getElem?_answers (a : Allocator) (steps : List Step) (i : Nat) :
    (a.answers steps)[i]? = steps[i]?.map fun step => ((a.after (steps.take i)).answer step).1 := by
  induction steps generalizing a i with
  | nil => rfl
  | cons step steps ih =>
    cases i with
    | zero => rfl
    | succ i => exact ih (a.answer step).2 i

theorem mem_used_after {steps : List Step} (h : .reserve slug ∈ steps) :
    slug ∈ (a.after steps).used := by
  induction steps generalizing a with
  | nil => cases h
  | cons step steps ih =>
    rcases List.mem_cons.mp h with rfl | h
    · exact (hands_answers (a.reserve slug) steps).kept List.mem_cons_self
    · exact ih h

/-- The slugs that a run hands out, directly and to headings, are pairwise distinct. None of them was
taken at the start, and none of them was reserved in a step before. -/
theorem slugs_nodup_of_run (a : Allocator) (steps : List Step) :
    let run := a.answers steps
    (run.flatMap Answer.slugs).Nodup ∧
      (∀ slug ∈ run.flatMap Answer.slugs, slug ∉ a.used) ∧
      ∀ (i j : Nat) slug answer, i < j → steps[i]? = some (.reserve slug) →
        run[j]? = some answer → slug ∉ answer.slugs := by
  intro run
  refine ⟨(hands_answers a steps).nodup, (hands_answers a steps).free, ?_⟩
  intro i j slug answer hij hi hj hslug
  rw [getElem?_answers] at hj
  obtain ⟨step, -, rfl⟩ := Option.map_eq_some_iff.mp hj
  have hmem : .reserve slug ∈ steps.take j :=
    List.mem_of_getElem? ((List.getElem?_take_of_lt hij).trans hi)
  exact (hands_answer (a.after (steps.take j)) step).free slug hslug (mem_used_after hmem)

theorem slugs_nodup_of_run_suffixed_bases :
    let steps : List Step := [.reserve "a-1", .allocate "a", .allocate "a", .allocate "a-1",
      .extract "f" "# A!\n\\section{a 1}\n# ∑", .allocate ""]
    let run := empty.answers steps
    run.flatMap Answer.slugs =
        ["a", "a-2", "a-1-1", "a-3", "a-1-2", "section", "section-1"] ∧
      (run.flatMap Answer.slugs).Nodup ∧ "a-1" ∉ (Answer.slug "a-2").slugs := by
  intro steps run
  obtain ⟨hnodup, -, hreserved⟩ := slugs_nodup_of_run empty steps
  exact ⟨by decide +kernel, hnodup, hreserved 0 2 "a-1" _ (by decide) rfl (by decide +kernel)⟩

end Allocator
end Manuscript.Slug
