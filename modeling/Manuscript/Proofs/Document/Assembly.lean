import Manuscript.Document.Basic
import Manuscript.Proofs.Contents
import Manuscript.Proofs.OrderedMap

/-! What a document is assembled of. Taking the blocks of each file of the contents out of the map
leaves the blocks of the other files, so every file comes out once: the files of the contents first,
then the content files that the contents do not mention. -/
namespace Manuscript.Document

theorem entries_eq_map_keys {κ α : Type} [DecidableEq κ] (m : OrderedMap κ (List α)) :
    m.entries = m.keys.map fun key => (key, (m.get? key).getD []) := by
  rw [OrderedMap.keys, List.map_map]
  symm
  refine (List.map_congr_left ?_).trans (List.map_id _)
  intro e he
  simp [m.get?_eq_some_of_mem he]

theorem takeSections_fst (groups : List (String × List Heading))
    (blocks : OrderedMap String (List (Block (List Span))))
    (hnodup : (groups.map Prod.fst).Nodup) :
    (takeSections groups blocks).1 =
      groups.map fun g => ⟨g.1, g.2, (blocks.get? g.1).getD []⟩ := by
  induction groups generalizing blocks with
  | nil => rfl
  | cons g groups ih =>
    obtain ⟨file, headings⟩ := g
    obtain ⟨hfile, hgroups⟩ := List.nodup_cons.mp hnodup
    have htail : (groups.map fun g =>
          (⟨g.1, g.2, ((blocks.erase file).get? g.1).getD []⟩ : Section)) =
        groups.map fun g => ⟨g.1, g.2, (blocks.get? g.1).getD []⟩ := by
      apply List.map_congr_left
      intro g hg
      have hmem : g.1 ∈ groups.map Prod.fst := List.mem_map_of_mem hg
      have hne : g.1 ≠ file := fun h => hfile (h ▸ hmem)
      rw [OrderedMap.get?_erase_of_ne blocks hne]
    simp only [takeSections, List.map_cons]
    rw [ih (blocks.erase file) hgroups, htail]

theorem takeSections_snd (groups : List (String × List Heading))
    (blocks : OrderedMap String (List (Block (List Span)))) :
    (takeSections groups blocks).2.entries =
      blocks.entries.filter fun e => e.1 ∉ groups.map Prod.fst := by
  induction groups generalizing blocks with
  | nil => simp [takeSections]
  | cons g groups ih =>
    simp only [takeSections]
    rw [ih, OrderedMap.erase, List.filter_filter]
    apply List.filter_congr
    intro e _
    rw [Bool.eq_iff_iff]
    simp [and_comm]

/-- The files of the contents by their first heading, then the other content files by their last
occurrence. -/
def fileOrder (content : ResolvedContent) (headings : List Heading) : List String :=
  (headings.map Heading.file).eraseDups ++
    (content.map Prod.fst).dedup.filter fun file => file ∉ headings.map Heading.file

theorem nodup_fileOrder (content : ResolvedContent) (headings : List Heading) :
    (fileOrder content headings).Nodup := by
  refine List.nodup_append.mpr ⟨nodup_eraseDups _, (List.nodup_dedup _).filter _, ?_⟩
  rintro a ha b hb rfl
  have hlisted : a ∈ headings.map Heading.file := List.mem_eraseDups.mp ha
  have hunlisted := (List.mem_filter.mp hb).2
  exact of_decide_eq_true hunlisted hlisted

/-- The headings of a file in their order, and the blocks it was given last. -/
def sectionOf (content : ResolvedContent) (headings : List Heading) (file : String) : Section :=
  ⟨file, headings.filter fun h => h.file == file, (content.reverse.lookup file).getD []⟩

theorem listed_eq (content : ResolvedContent) (c : Contents) :
    (takeSections c.groups (OrderedMap.ofList content)).1 =
      (c.headings.map Heading.file).eraseDups.map (sectionOf content c.headings) := by
  have hgroups := Contents.groups_eq c.headings
  have hnodup : (c.groups.map Prod.fst).Nodup := by
    rw [hgroups, List.map_map]
    simpa [Function.comp_def] using nodup_eraseDups (c.headings.map Heading.file)
  rw [takeSections_fst _ _ hnodup, hgroups, List.map_map]
  apply List.map_congr_left
  intro file _
  simp [sectionOf, OrderedMap.get?_ofList]

theorem unlisted_eq (content : ResolvedContent) (c : Contents) :
    ((takeSections c.groups (OrderedMap.ofList content)).2.entries.map fun e =>
        (⟨e.1, [], e.2⟩ : Section)) =
      ((content.map Prod.fst).dedup.filter fun file => file ∉ c.headings.map Heading.file).map
        (sectionOf content c.headings) := by
  have hlisted : ∀ file, file ∈ c.groups.map Prod.fst ↔ file ∈ c.headings.map Heading.file := by
    intro file
    rw [Contents.groups_eq c.headings, List.map_map]
    simp [Function.comp_def]
  simp only [takeSections_snd, hlisted]
  rw [entries_eq_map_keys, OrderedMap.keys_ofList, List.filter_map, List.map_map]
  apply List.map_congr_left
  intro file hfile
  have hunlisted : file ∉ c.headings.map Heading.file :=
    of_decide_eq_true (List.mem_filter.mp hfile).2
  have hnone : (c.headings.filter fun h => h.file == file) = [] := by
    simp only [List.filter_eq_nil_iff, beq_iff_eq]
    rintro h hh rfl
    exact hunlisted (List.mem_map_of_mem hh)
  simp [sectionOf, hnone, OrderedMap.get?_ofList]

theorem sections_assemble (content : ResolvedContent) (i : Indices) :
    (assemble content i).sections =
      (fileOrder content i.contents.headings).map (sectionOf content i.contents.headings) := by
  simp only [assemble]
  rw [listed_eq, unlisted_eq, fileOrder, List.map_append]

theorem files_assemble (content : ResolvedContent) (i : Indices) :
    (assemble content i).files = fileOrder content i.contents.headings := by
  rw [files, sections_assemble, List.map_map]
  exact List.map_id _

/-- Every file of the contents or of the content has one section, in the order told, with all of its
headings and the blocks it was given last; nothing else has one. -/
theorem assemble_each_file_once (content : ResolvedContent) (headings : List Heading)
    (b : Bibliography) :
    let d := assemble content ⟨⟨headings⟩, b⟩
    d.files.Nodup ∧
      d.files = (headings.map Heading.file).eraseDups ++
        ((content.map Prod.fst).dedup.filter fun file => file ∉ headings.map Heading.file) ∧
      d.sections = d.files.map (fun file =>
        ⟨file, headings.filter fun h => h.file == file, (content.reverse.lookup file).getD []⟩) ∧
      d.bibliography = b.entries := by
  intro d
  have hfiles : d.files = fileOrder content headings := files_assemble content ⟨⟨headings⟩, b⟩
  refine ⟨?_, hfiles, ?_, rfl⟩
  · rw [hfiles]
    exact nodup_fileOrder content headings
  · rw [hfiles]
    exact sections_assemble content ⟨⟨headings⟩, b⟩

end Manuscript.Document
