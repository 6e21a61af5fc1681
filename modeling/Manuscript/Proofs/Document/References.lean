import Manuscript.Document.Pool
import Manuscript.Proofs.Document.Assembly
import Manuscript.Proofs.Reference

/-! Citations and references of a built document. Its blocks are those of the content with every
token resolved, section by section, so what is listed as unresolved are exactly the tokens that no
record is there for, and what is resolved leads to an entry of the bibliography or a heading of a
section. -/
namespace Manuscript.Document

open Markup (Token)

variable {content : Content} {headings : List Heading} {sources : List Source} {i : Indices}

theorem lookup_resolve (content : Content) (i : Indices) (file : String) :
    (content.resolve i).reverse.lookup file =
      (content.get? file).map (List.map (Block.resolve i)) := by
  rw [← OrderedMap.get?_map]
  exact ((content.map (List.map (Block.resolve i))).get?_eq_lookup_reverse file).symm

theorem blocks_of_mem {s : Section} (hs : s ∈ (build content i).sections) :
    s.blocks = ((content.get? s.file).getD []).map (Block.resolve i) := by
  rw [build, sections_assemble] at hs
  obtain ⟨file, -, rfl⟩ := List.mem_map.mp hs
  simp only [sectionOf]
  rw [lookup_resolve]
  cases content.get? file <;> rfl

theorem headings_of_mem {s : Section} (hs : s ∈ (build content i).sections) :
    s.headings = i.contents.headings.filter fun h => h.file == s.file := by
  rw [build, sections_assemble] at hs
  obtain ⟨file, -, rfl⟩ := List.mem_map.mp hs
  rfl

theorem map_fst_resolve (content : Content) (i : Indices) :
    (content.resolve i).map Prod.fst = content.keys := by
  simp [Content.resolve, OrderedMap.keys]

theorem files_build (content : Content) (i : Indices) :
    (build content i).files = fileOrder (content.resolve i) i.contents.headings :=
  files_assemble (content.resolve i) i

theorem nodup_files_build (content : Content) (i : Indices) : (build content i).files.Nodup := by
  rw [files_build]
  exact nodup_fileOrder _ _

theorem mem_files_build {file : String} : file ∈ (build content i).files ↔
    file ∈ i.contents.headings.map Heading.file ∨ file ∈ content.keys := by
  rw [files_build, fileOrder, map_fst_resolve, List.mem_append, List.mem_eraseDups, List.mem_filter,
    List.mem_dedup, decide_eq_true_eq]
  by_cases hf : file ∈ i.contents.headings.map Heading.file
  · simp only [hf, true_or]
  · simp only [hf, false_or, not_false_eq_true, and_true]

theorem exists_section {file : String} (h : file ∈ (build content i).files) :
    ∃ s ∈ (build content i).sections, s.file = file :=
  List.mem_map.mp h

/-! What is unresolved. -/

def missing? (headings : List Heading) (sources : List Source) (file sectionId : String) :
    Token → Option Unresolved
  | .citation key _ =>
    if key ∈ sources.map Source.key then none else some ⟨file, sectionId, .citation, key⟩
  | .reference target _ =>
    if target ∈ headings.map Heading.slug then none
    else some ⟨file, sectionId, .reference, target⟩
  | .text _ | .math _ _ _ | .unknown _ => none

theorem unresolvedSpan?_resolve (headings : List Heading) (sources : List Source)
    (file sectionId : String) (t : Token) :
    unresolvedSpan? file sectionId ((Indices.build headings sources).resolve t) =
      missing? headings sources file sectionId t := by
  generalize hs : (Indices.build headings sources).resolve t = s
  have h := hs ▸ Indices.resolves (Indices.build headings sources) t
  cases h with
  | text => rfl
  | math => rfl
  | unknown => rfl
  | cited raw hl => exact (if_pos (Indices.key_mem_of_found hl)).symm
  | uncited raw hl => exact (if_neg (Indices.entry_eq_none_iff.mp hl)).symm
  | referred raw hl => exact (if_pos (Indices.slug_mem_of_found hl)).symm
  | unreferred raw hl => exact (if_neg (Indices.heading_eq_none_iff.mp hl)).symm

theorem unresolved_block (headings : List Heading) (sources : List Source) (file : String)
    (b : Block String) :
    (b.resolve (Indices.build headings sources)).body.filterMap
        (unresolvedSpan? file b.sectionId) =
      (Markup.parse b.body).filterMap (missing? headings sources file b.sectionId) := by
  rw [Block.resolve, List.filterMap_map]
  apply List.filterMap_congr
  intro t _
  exact unresolvedSpan?_resolve headings sources file b.sectionId t

theorem unresolved_build (content : Content) (headings : List Heading) (sources : List Source) :
    (build content (Indices.build headings sources)).unresolved =
      (build content (Indices.build headings sources)).sections.flatMap fun s =>
        ((content.get? s.file).getD []).flatMap fun b =>
          (Markup.parse b.body).filterMap (missing? headings sources s.file b.sectionId) := by
  apply List.flatMap_congr
  intro s hs
  rw [blocks_of_mem hs, List.flatMap_map]
  apply List.flatMap_congr
  intro b _
  exact unresolved_block headings sources s.file b

/-- Whether or not a pool resolves the files, every file of the content has its blocks in one
section, each with one span for each of its tokens, and what is reported are the tokens whose record
is not there, in the order of the document. -/
theorem unresolved_of_content {pool : Pool} (hpool : ∀ f files, Pooled f files (pool f files))
    (parallel : Bool) (content : Content) (headings : List Heading) (sources : List Source) :
    let i := Indices.build headings sources
    let d := buildBy pool parallel content i
    d.files.Nodup ∧
      (∀ e ∈ content.entries, ∃ s ∈ d.sections, s.file = e.1 ∧
        s.blocks = e.2.map fun b =>
          ⟨b.sectionId, b.sectionTitle, b.level, (Markup.parse b.body).map i.resolve⟩) ∧
      (∀ s ∈ d.sections, s.file ∉ content.keys → s.blocks = []) ∧
      d.unresolved = d.sections.flatMap fun s =>
        ((content.get? s.file).getD []).flatMap fun b =>
          (Markup.parse b.body).filterMap (missing? headings sources s.file b.sectionId) := by
  intro i d
  have hd : d = build content i := buildBy_eq hpool parallel content i
  rw [hd]
  refine ⟨nodup_files_build content i, ?_, ?_, unresolved_build content headings sources⟩
  · intro e he
    have hfile : e.1 ∈ (build content i).files :=
      mem_files_build.mpr (.inr (List.mem_map_of_mem he))
    obtain ⟨s, hs, hse⟩ := exists_section hfile
    refine ⟨s, hs, hse, ?_⟩
    rw [blocks_of_mem hs, hse, content.get?_eq_some_of_mem he, Option.getD_some]
    rfl
  · intro s hs hno
    rw [blocks_of_mem hs, OrderedMap.get?_eq_none hno, Option.getD_none, List.map_nil]

theorem unresolved_of_content_two_workers :
    let pool : Pool := halves
    let content : Content := .ofList
      [("a", [⟨"s", "S", "h1", "[cite:x] [ref:t]"⟩]), ("b", [⟨"t", "T", "h1", "[cite:k,y]"⟩])]
    (∀ f files, Pooled f files (pool f files)) ∧
      (buildBy pool true content (Indices.build [⟨1, "T", "t", "b"⟩] [⟨"k", ""⟩])).unresolved =
        [⟨"b", "t", .citation, "y"⟩, ⟨"a", "s", .citation, "x"⟩] := by
  intro pool content
  have hpool : ∀ f files, Pooled f files (pool f files) := pooled_halves
  have h := unresolved_of_content hpool true content [⟨1, "T", "t", "b"⟩] [⟨"k", ""⟩]
  exact ⟨hpool, h.2.2.2.trans (by decide +kernel)⟩

/-! What is resolved. -/

theorem resolves_of_mem_body {s : Section} {b : Block (List Span)} {span : Span}
    (hs : s ∈ (build content i).sections) (hb : b ∈ s.blocks) (hspan : span ∈ b.body) :
    ∃ t, i.Resolves t span := by
  rw [blocks_of_mem hs] at hb
  obtain ⟨b', -, rfl⟩ := List.mem_map.mp hb
  obtain ⟨t, -, rfl⟩ := List.mem_map.mp hspan
  exact ⟨t, i.resolves t⟩

theorem listed_of_mem (content : Content) {h : Heading} (hh : h ∈ i.contents.headings) :
    ∃ s ∈ (build content i).sections, h ∈ s.headings := by
  have hfile : h.file ∈ (build content i).files :=
    mem_files_build.mpr (.inl (List.mem_map_of_mem hh))
  obtain ⟨s, hs, hse⟩ := exists_section hfile
  refine ⟨s, hs, ?_⟩
  rw [headings_of_mem hs, List.mem_filter, hse]
  exact ⟨hh, beq_self_eq_true h.file⟩

/-- A citation leads to the entry of its number, a reference to a heading listed in a section. -/
theorem targets_in_document (content : Content) (headings : List Heading)
    (sources : List Source) :
    let d := build content (Indices.build headings sources)
    ∀ s ∈ d.sections, ∀ b ∈ s.blocks,
      (∀ number key anchor, .citation number key anchor ∈ b.body →
        1 ≤ number ∧ number ≤ d.bibliography.length ∧
          ∃ e, d.bibliography[number - 1]? = some e ∧ e.key = key ∧ e.number = number ∧
            e.anchor = anchor) ∧
      ∀ label anchor, .reference label anchor ∈ b.body →
        label = anchor ∧ ∃ s' ∈ d.sections, ∃ h ∈ s'.headings, h.slug = label := by
  intro d s hs b hb
  constructor
  · intro number key anchor hspan
    obtain ⟨t, ht⟩ := resolves_of_mem_body hs hb hspan
    cases ht with
    | cited raw hl =>
      obtain ⟨hpos, hle, he⟩ :=
        (Bibliography.numbered_ofSources sources).getElem?_of_lookup? hl
      exact ⟨hpos, hle, _, he, Bibliography.key_of_lookup? hl, rfl, rfl⟩
  · intro label anchor hspan
    obtain ⟨t, ht⟩ := resolves_of_mem_body hs hb hspan
    cases ht with
    | referred raw hl =>
      obtain ⟨s', hs', hh⟩ := listed_of_mem content (Contents.mem_of_lookup? hl)
      exact ⟨rfl, s', hs', _, hh, Contents.slug_of_lookup? hl⟩

theorem targets_in_document_repeated_key :
    let d := build (.ofList [("f", [⟨"s", "S", "h1", "[cite:b] [ref:s]"⟩])])
      (Indices.build [⟨1, "S", "s", "f"⟩] [⟨"a", "A"⟩, ⟨"a", "C"⟩, ⟨"b", "B"⟩])
    let b : Block (List Span) :=
      ⟨"s", "S", "h1", [.citation 2 "b" "citation-b", .text " ", .reference "s" "s"]⟩
    ⟨"f", [⟨1, "S", "s", "f"⟩], [b]⟩ ∈ d.sections ∧
      (∃ e, d.bibliography[1]? = some e ∧ e.key = "b" ∧ e.number = 2 ∧ e.anchor = "citation-b") ∧
      ∃ s' ∈ d.sections, ∃ h ∈ s'.headings, h.slug = "s" := by
  intro d b
  have hs : ⟨"f", [⟨1, "S", "s", "f"⟩], [b]⟩ ∈ d.sections := by decide +kernel
  obtain ⟨hcited, hreferred⟩ := targets_in_document _ _ _ _ hs b (List.mem_singleton.mpr rfl)
  exact ⟨hs, (hcited 2 "b" "citation-b" (by decide)).2.2, (hreferred "s" "s" (by decide)).2⟩

end Manuscript.Document
