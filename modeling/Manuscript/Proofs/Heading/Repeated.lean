import Mathlib.Data.List.Destutter
import Manuscript.Proofs.Heading.Allocation
import Manuscript.Proofs.Heading.Derived

/-! Slugs that a derived table of contents repeats. The slugs handed out for the headings in texts are
distinct and are no section's id, as all ids are taken before; so what is repeated is the id of a
section that more than one run of blocks belongs to. -/
namespace Manuscript.Heading

open Slug (Allocator)
open Slug.Allocator (Hands)

/-- The section of each run of blocks, file by file. -/
def runSections (files : List (String × List (Block String))) : List String :=
  files.flatMap fun e => (e.2.map Block.sectionId).destutter (· ≠ ·)

theorem cons_slugs_ofRuns (file name : String) (blocks : List (Block String)) :
    name :: (ofRuns file (some name) blocks).map Heading.slug =
      (blocks.map Block.sectionId).destutter' (· ≠ ·) name := by
  induction blocks generalizing name with
  | nil => rfl
  | cons b blocks ih =>
    rw [ofRuns, List.map_append, List.map_cons]
    by_cases h : name = b.sectionId
    · rw [if_pos (congrArg some h), List.destutter'_cons_neg _ (not_not.mpr h), ← ih, h]
      rfl
    · rw [if_neg fun hsome => h (Option.some.inj hsome), List.destutter'_cons_pos _ h, ← ih]
      rfl

theorem slugs_ofRuns (file : String) (blocks : List (Block String)) :
    (ofRuns file none blocks).map Heading.slug =
      (blocks.map Block.sectionId).destutter (· ≠ ·) := by
  cases blocks with
  | nil => rfl
  | cons b blocks => exact cons_slugs_ofRuns file b.sectionId blocks

/-! What the allocator hands out meanwhile. -/

theorem exists_hands_ofBlocks (file : String) (current : Option String) (a : Allocator)
    (blocks : List (Block String)) : ∃ given, Hands a given (ofBlocks file current a blocks).2 ∧
      ((ofBlocks file current a blocks).1.map Heading.slug).Perm
        ((ofRuns file current blocks).map Heading.slug ++ given) := by
  induction blocks generalizing current a with
  | nil => exact ⟨[], .refl a, .refl _⟩
  | cons b blocks ih =>
    have hinText := Slug.Allocator.hands_withSlugs file a (found b.body.toList)
    obtain ⟨given, hgiven, hperm⟩ := ih (some b.sectionId) (extractWith file b.body a).2
    refine ⟨_, hinText.trans hgiven, ?_⟩
    rw [List.perm_iff_count] at hperm ⊢
    intro slug
    have hmore := hperm slug
    simp only [ofBlocks, ofRuns, extractWith, List.map_append, List.count_append] at hmore ⊢
    omega

theorem exists_hands_ofFiles (a : Allocator) (files : List (String × List (Block String))) :
    ∃ given b, Hands a given b ∧
      ((ofFiles a files).map Heading.slug).Perm (runSections files ++ given) := by
  induction files generalizing a with
  | nil => exact ⟨[], a, .refl a, .refl _⟩
  | cons e files ih =>
    obtain ⟨file, blocks⟩ := e
    obtain ⟨own, hown, hblocks⟩ := exists_hands_ofBlocks file none a blocks
    obtain ⟨given, b, hgiven, hfiles⟩ := ih (ofBlocks file none a blocks).2
    refine ⟨_, b, hown.trans hgiven, ?_⟩
    rw [List.perm_iff_count] at hblocks hfiles ⊢
    intro slug
    have hfirst := hblocks slug
    have hrest := hfiles slug
    rw [slugs_ofRuns] at hfirst
    simp only [ofFiles, runSections, List.flatMap_cons, List.map_append, List.count_append] at *
    omega

/-! The ids of all sections are taken before. -/

theorem used_reserveAll (content : Content) : (reserveAll content).used =
    ((content.entries.flatMap Prod.snd).map Block.sectionId).reverse := by
  have hreserve : ∀ (blocks : List (Block String)) (a : Allocator),
      (blocks.foldl (fun a b => a.reserve b.sectionId) a).used =
        (blocks.map Block.sectionId).reverse ++ a.used := by
    intro blocks
    induction blocks with
    | nil => exact fun a => rfl
    | cons b blocks ih =>
      intro a
      rw [List.foldl_cons, ih, List.map_cons, List.reverse_cons, List.append_assoc]
      rfl
  rw [reserveAll, ← List.foldl_flatMap, hreserve]
  exact List.append_nil _

theorem runSections_subset_used (content : Content) :
    runSections content.entries ⊆ (reserveAll content).used := by
  intro slug hslug
  obtain ⟨e, he, hslug⟩ := List.mem_flatMap.mp hslug
  obtain ⟨b, hb, rfl⟩ := List.mem_map.mp ((List.destutter_sublist _ _).subset hslug)
  rw [used_reserveAll, List.mem_reverse]
  exact List.mem_map_of_mem (List.mem_flatMap.mpr ⟨e, he, hb⟩)

/-- A derived table of contents repeats the ids of sections that have two runs or more, and no other
slug. -/
theorem two_le_count_derive (content : Content) (slug : String) :
    2 ≤ ((derive content).map Heading.slug).count slug ↔
      2 ≤ (runSections content.entries).count slug := by
  obtain ⟨given, b, hgiven, hperm⟩ := exists_hands_ofFiles (reserveAll content) content.entries
  have hcount := hperm.count_eq slug
  rw [List.count_append] at hcount
  rw [derive, hcount]
  by_cases hslug : slug ∈ given
  · have hfree : slug ∉ runSections content.entries := fun hruns =>
      hgiven.free slug hslug (runSections_subset_used content hruns)
    rw [List.count_eq_one_of_mem hgiven.nodup hslug, List.count_eq_zero_of_not_mem hfree]
    decide
  · rw [List.count_eq_zero_of_not_mem hslug, Nat.add_zero]

end Manuscript.Heading
