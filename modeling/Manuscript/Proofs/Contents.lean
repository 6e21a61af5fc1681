import Manuscript.Contents
import Manuscript.Proofs.Gather

/-! Slugs and files of a table of contents. The slugs reported as repeated are the ones that two
headings or more carry, each once, by their first heading. The headings fall into one group for each
file, files by their first heading, and in each group the headings keep their order. -/
namespace Manuscript.Contents

theorem length_valuesOf_slug (headings : List Heading) (slug : String) :
    (valuesOf slug (headings.map fun h => (h.slug, h))).length =
      (headings.map Heading.slug).count slug := by
  simp [valuesOf, List.count_eq_countP, List.countP_eq_length_filter,
    List.filter_map, Function.comp_def]

theorem duplicateSlugs_eq (headings : List Heading) : duplicateSlugs headings =
    (headings.map Heading.slug).eraseDups.filter
      fun slug => 2 ≤ (headings.map Heading.slug).count slug := by
  rw [duplicateSlugs, gather_eq, List.filter_map, List.map_map, List.map_map]
  simp only [Function.comp_def, length_valuesOf_slug]
  exact List.map_id _

theorem mem_duplicateSlugs {headings : List Heading} {slug : String} :
    slug ∈ duplicateSlugs headings ↔ 2 ≤ (headings.map Heading.slug).count slug := by
  rw [duplicateSlugs_eq, List.mem_filter, List.mem_eraseDups, decide_eq_true_eq]
  exact and_iff_right_of_imp fun h => List.count_pos_iff.mp (by omega)

theorem nodup_duplicateSlugs (headings : List Heading) : (duplicateSlugs headings).Nodup := by
  rw [duplicateSlugs_eq]
  exact (nodup_eraseDups _).filter _

theorem count_duplicateSlugs (headings : List Heading) (slug : String) :
    (duplicateSlugs headings).count slug =
      if 2 ≤ (headings.map Heading.slug).count slug then 1 else 0 := by
  rw [(nodup_duplicateSlugs headings).count]
  exact if_congr mem_duplicateSlugs rfl rfl

/-! Files -/

theorem groups_eq (headings : List Heading) :
    (Contents.mk headings).groups = (headings.map Heading.file).eraseDups.map fun file =>
      (file, headings.filter fun h => h.file == file) := by
  rw [Contents.groups, gather_eq, List.map_map]
  apply List.map_congr_left
  intro file _
  simp [valuesOf, List.filter_map, Function.comp_def]

theorem files_eq (headings : List Heading) :
    (Contents.mk headings).files = (headings.map Heading.file).eraseDups := by
  rw [files, groups_eq, List.map_map]
  exact List.map_id _

theorem perm_groups (headings : List Heading) :
    ((Contents.mk headings).groups.flatMap Prod.snd).Perm headings := by
  have hvalues : (headings.map fun h => (h.file, h)).map Prod.snd = headings := by
    rw [List.map_map]
    exact List.map_id _
  have hperm := perm_gather (headings.map fun h => (h.file, h))
  rwa [hvalues] at hperm

/-- Grouping is a stable partition: each file of the headings has one group, in the order in which the
files are first seen; a group is the headings of its file in their order, of which there is one at
least; and the groups one after another are a permutation of the headings. -/
theorem groups_partition (headings : List Heading) :
    let c : Contents := ⟨headings⟩
    c.groups.map Prod.fst = c.files ∧
      (∀ file, file ∈ c.files ↔ ∃ h ∈ headings, h.file = file) ∧
      (c.files.Nodup ∧ c.files.Pairwise fun a b =>
        (headings.map Heading.file).idxOf a < (headings.map Heading.file).idxOf b) ∧
      (∀ g ∈ c.groups, g.2 ≠ [] ∧ g.2 = headings.filter fun h => h.file == g.1) ∧
      (c.groups.flatMap Prod.snd).Perm headings := by
  intro c
  have hfiles : c.files = (headings.map Heading.file).eraseDups := files_eq headings
  have hmem : ∀ file, file ∈ c.files ↔ ∃ h ∈ headings, h.file = file := by
    intro file
    rw [hfiles, List.mem_eraseDups, List.mem_map]
  refine ⟨rfl, hmem, ⟨?_, ?_⟩, ?_, perm_groups headings⟩
  · rw [hfiles]
    exact nodup_eraseDups _
  · rw [hfiles]
    exact pairwise_idxOf_eraseDups _
  · intro g hg
    have hgroup : g.2 = headings.filter fun h => h.file == g.1 := by
      rw [groups_eq] at hg
      obtain ⟨file, -, rfl⟩ := List.mem_map.mp hg
      rfl
    refine ⟨?_, hgroup⟩
    obtain ⟨h, hh, hfile⟩ := (hmem g.1).mp (List.mem_map_of_mem hg)
    rw [hgroup]
    exact List.ne_nil_of_mem (List.mem_filter.mpr ⟨hh, beq_iff_eq.mpr hfile⟩)

theorem groups_partition_interleaved :
    let heading (slug file : String) : Heading := ⟨2, slug, slug, file⟩
    let headings := [heading "s1" "a", heading "s2" "b", heading "s3" "a", heading "s4" "c",
      heading "s5" "b"]
    ("b", [heading "s2" "b", heading "s5" "b"]) ∈ (Contents.mk headings).groups ∧
      headings.filter (fun h => h.file == "b") = [heading "s2" "b", heading "s5" "b"] := by
  intro heading headings
  have hmem : ("b", [heading "s2" "b", heading "s5" "b"]) ∈ (Contents.mk headings).groups := by
    decide
  obtain ⟨-, -, -, hgroups, -⟩ := groups_partition headings
  exact ⟨hmem, (hgroups _ hmem).2.symm⟩

end Manuscript.Contents
