import Std.Data.HashMap.Lemmas
import Manuscript.Proofs.Contents
import Manuscript.Proofs.Reference

/-! A table of contents with a map from each slug to the place of its first heading, and the slugs
counted in one pass. The map is filled from the first heading on and a slug that has a place keeps it,
so that a slug looked up by its place has the heading that a search of all headings finds; the count of
a slug is the number of headings that carry it, and those counted twice or more are the repeated ones. -/
namespace Manuscript.Contents

structure Indexed where
  headings : List Heading
  places : Std.HashMap String Nat

namespace Indexed

def placesOf (headings : List Heading) : Std.HashMap String Nat :=
  headings.zipIdx.foldl (fun places p => places.insertIfNew p.1.slug p.2) ∅

def ofHeadings (headings : List Heading) : Indexed := ⟨headings, placesOf headings⟩

def lookup? (x : Indexed) (slug : String) : Option Heading :=
  x.places[slug]?.bind fun n => x.headings[n]?

def addCount (slug : String) : List (String × Nat) → List (String × Nat)
  | [] => [(slug, 1)]
  | (s, n) :: counts => if s = slug then (s, n + 1) :: counts else (s, n) :: addCount slug counts

def slugCounts (headings : List Heading) : List (String × Nat) :=
  headings.foldl (fun counts h => addCount h.slug counts) []

def countedSlugs (headings : List Heading) : List String :=
  ((slugCounts headings).filter fun c => 1 < c.2).map Prod.fst

def repeatedSlugs (x : Indexed) : List String := countedSlugs x.headings

/-! Places -/

theorem getElem?_placesOf (headings : List Heading) (slug : String) :
    (placesOf headings)[slug]? = headings.findIdx? fun h => h.slug == slug := by
  induction headings using List.reverseRecOn generalizing slug with
  | nil => simp [placesOf]
  | append_singleton headings h ih =>
    have hlast : placesOf (headings ++ [h]) =
        (placesOf headings).insertIfNew h.slug headings.length := by
      simp [placesOf, List.zipIdx_append]
    rw [hlast, Std.HashMap.getElem?_insertIfNew, List.findIdx?_append, ← ih]
    by_cases hslug : h.slug = slug
    · subst hslug
      cases hplace : (placesOf headings)[h.slug]? with
      | none =>
        have hnew : h.slug ∉ placesOf headings := by
          rw [Std.HashMap.mem_iff_isSome_getElem?, hplace]
          exact Bool.false_ne_true
        simp [hnew]
      | some n =>
        have hold : h.slug ∈ placesOf headings := by
          rw [Std.HashMap.mem_iff_isSome_getElem?, hplace]
          rfl
        simp [hold]
    · simp [hslug]

theorem lookup?_ofHeadings (headings : List Heading) (slug : String) :
    (ofHeadings headings).lookup? slug = (Contents.mk headings).lookup? slug := by
  rw [lookup?, ofHeadings, getElem?_placesOf, Contents.lookup?]
  cases hn : headings.findIdx? fun h => h.slug == slug with
  | none =>
    rw [List.findIdx?_eq_none_iff] at hn
    symm
    simpa using hn
  | some n =>
    obtain ⟨hlt, hslug, hbefore⟩ := List.findIdx?_eq_some_iff_getElem.mp hn
    symm
    rw [Option.bind_some, List.getElem?_eq_getElem hlt, List.find?_eq_some_iff_getElem]
    exact ⟨hslug, n, hlt, rfl, by simpa using hbefore⟩

/-! Counts -/

theorem addCount_eq {α : Type} (slug : String) (value : α) (groups : List (String × List α)) :
    addCount slug (groups.map fun g => (g.1, g.2.length)) =
      (addToGroup slug value groups).map fun g => (g.1, g.2.length) := by
  induction groups with
  | nil => rfl
  | cons g groups ih =>
    by_cases hslug : g.1 = slug
    · simp [addCount, addToGroup, hslug]
    · simp [addCount, addToGroup, hslug, ih]

theorem slugCounts_eq (headings : List Heading) : slugCounts headings =
    (gather (headings.map fun h => (h.slug, h))).map fun g => (g.1, g.2.length) := by
  induction headings using List.reverseRecOn with
  | nil => rfl
  | append_singleton headings h ih =>
    rw [slugCounts, List.foldl_append, List.map_append, List.map_singleton, gather_concat,
      ← addCount_eq, ← ih]
    rfl

theorem countedSlugs_eq (headings : List Heading) :
    countedSlugs headings = duplicateSlugs headings := by
  rw [countedSlugs, slugCounts_eq, List.filter_map, List.map_map, duplicateSlugs]
  rfl

end Indexed

variable {headings before after : List Heading} {h : Heading} {slug : String}

theorem lookup?_eq_some_iff : (Contents.mk headings).lookup? slug = some h ↔
    h.slug = slug ∧ ∃ before after, headings = before ++ h :: after ∧
      slug ∉ before.map Heading.slug := by
  rw [lookup?, List.find?_eq_some_iff_append]
  simp

/-- A slug is repeated if another heading carries it behind the one that it is looked up at. -/
theorem mem_duplicateSlugs_iff_behind : slug ∈ duplicateSlugs headings ↔
    ∃ before h after, headings = before ++ h :: after ∧
      (Indexed.placesOf headings)[slug]? = some before.length ∧ h.slug = slug ∧
      slug ∈ after.map Heading.slug := by
  rw [mem_duplicateSlugs]
  constructor
  · intro hcount
    cases hl : (Contents.mk headings).lookup? slug with
    | none =>
      have habsent : slug ∉ headings.map Heading.slug := lookup?_eq_none_iff.mp hl
      rw [List.count_eq_zero_of_not_mem habsent] at hcount
      omega
    | some h =>
      obtain ⟨hslug, before, after, rfl, hbefore⟩ := lookup?_eq_some_iff.mp hl
      have hplace : (before ++ h :: after).findIdx? (fun h => h.slug == slug) =
          some before.length := by
        have hnone : before.findIdx? (fun h => h.slug == slug) = none := by
          simpa [List.findIdx?_eq_none_iff] using hbefore
        rw [List.findIdx?_append, hnone]
        simp [List.findIdx?_cons, hslug]
      refine ⟨before, h, after, rfl, ?_, hslug, ?_⟩
      · rw [Indexed.getElem?_placesOf, hplace]
      · rw [List.map_append, List.map_cons, List.count_append, hslug, List.count_cons_self,
          List.count_eq_zero_of_not_mem hbefore] at hcount
        exact List.count_pos_iff.mp (by omega)
  · rintro ⟨before, h, after, rfl, -, hslug, hafter⟩
    have hpos : 0 < (after.map Heading.slug).count slug := List.count_pos_iff.mpr hafter
    rw [List.map_append, List.map_cons, List.count_append, hslug, List.count_cons_self]
    omega

theorem pairwise_idxOf_duplicateSlugs (headings : List Heading) :
    (duplicateSlugs headings).Pairwise fun a b =>
      (headings.map Heading.slug).idxOf a < (headings.map Heading.slug).idxOf b := by
  rw [duplicateSlugs_eq]
  exact (pairwise_idxOf_eraseDups _).filter _

/-- A slug is looked up at the place of the first heading that carries it, and not at all if none does.
The slugs reported as repeated, be they gathered or counted, are those that two headings or more carry,
each once and by their first heading: those carried again behind the place where they are looked up. -/
theorem first_and_repeated_slugs (headings : List Heading) :
    let c : Contents := ⟨headings⟩
    let x := Indexed.ofHeadings headings
    (∀ slug h, c.lookup? slug = some h ↔ h.slug = slug ∧
        ∃ before after, headings = before ++ h :: after ∧ slug ∉ before.map Heading.slug) ∧
      (∀ slug, c.lookup? slug = none ↔ slug ∉ headings.map Heading.slug) ∧
      (∀ slug, x.lookup? slug = c.lookup? slug) ∧
      (∀ (slug : String) (n : Nat), x.places[slug]? = some n → n < x.headings.length) ∧
      (∀ slug, slug ∈ duplicateSlugs headings ↔ 2 ≤ (headings.map Heading.slug).count slug) ∧
      ((duplicateSlugs headings).Nodup ∧ (duplicateSlugs headings).Pairwise fun a b =>
        (headings.map Heading.slug).idxOf a < (headings.map Heading.slug).idxOf b) ∧
      (Indexed.countedSlugs headings = duplicateSlugs headings ∧
        x.repeatedSlugs = duplicateSlugs headings) ∧
      ∀ slug, slug ∈ duplicateSlugs headings ↔ ∃ before h after, headings = before ++ h :: after ∧
        x.places[slug]? = some before.length ∧ h.slug = slug ∧ slug ∈ after.map Heading.slug := by
  intro c x
  have hplace : ∀ (slug : String) (n : Nat), x.places[slug]? = some n →
      n < x.headings.length := by
    intro slug n hn
    have hfirst : headings.findIdx? (fun h => h.slug == slug) = some n := by
      rw [← Indexed.getElem?_placesOf]
      exact hn
    exact (List.findIdx?_eq_some_iff_getElem.mp hfirst).1
  exact ⟨fun slug h => lookup?_eq_some_iff, fun slug => lookup?_eq_none_iff,
    Indexed.lookup?_ofHeadings headings, hplace, fun slug => mem_duplicateSlugs,
    ⟨nodup_duplicateSlugs headings, pairwise_idxOf_duplicateSlugs headings⟩,
    ⟨Indexed.countedSlugs_eq headings, Indexed.countedSlugs_eq headings⟩,
    fun slug => mem_duplicateSlugs_iff_behind⟩

theorem first_and_repeated_slugs_interleaved :
    let heading (slug file : String) : Heading := ⟨2, slug, slug, file⟩
    let headings := [heading "b" "x", heading "a" "x", heading "c" "y", heading "a" "y",
      heading "b" "z", heading "a" "z"]
    (Contents.mk headings).lookup? "a" = some (heading "a" "x") ∧
      (Indexed.ofHeadings headings).lookup? "a" = some (heading "a" "x") ∧
      (Indexed.ofHeadings headings).places["a"]? = some 1 ∧
      1 < (Indexed.ofHeadings headings).headings.length ∧
      (Indexed.ofHeadings headings).repeatedSlugs = ["b", "a"] := by
  intro heading headings
  obtain ⟨hsome, -, hlookup, hbound, -, -, ⟨-, hrepeated⟩, -⟩ := first_and_repeated_slugs headings
  have hfirst : (Contents.mk headings).lookup? "a" = some (heading "a" "x") :=
    (hsome "a" _).mpr ⟨rfl, [heading "b" "x"], _, rfl, by decide⟩
  have hplace : (Indexed.ofHeadings headings).places["a"]? = some 1 :=
    (Indexed.getElem?_placesOf headings "a").trans (by decide)
  exact ⟨hfirst, (hlookup "a").trans hfirst, hplace, hbound "a" 1 hplace,
    hrepeated.trans (by decide)⟩

end Manuscript.Contents
