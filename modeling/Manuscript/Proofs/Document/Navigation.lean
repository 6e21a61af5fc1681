import Mathlib.Data.List.Nodup
import Mathlib.Logic.Function.Iterate
import Manuscript.Proofs.Document.Assembly

/-! Finding one's way in an assembled document. A file has one section, so the blocks found for a file
and an id are all blocks of one id in that file, and the files before and after it are those next to its
only place: the files are a list that is linked both ways. -/
namespace Manuscript.Document

variable {d : Document} {file other id : String} {s : Section} {n : Neighbors}
variable {before after : List String} {blocks : List (Block (List Span))}

theorem nodup_files_assemble (content : ResolvedContent) (i : Indices) :
    (assemble content i).files.Nodup := by
  rw [files_assemble]
  exact nodup_fileOrder content i.contents.headings

/-! Blocks. -/

theorem section?_eq_none_iff : d.section? file = none ↔ ∀ s ∈ d.sections, s.file ≠ file := by
  simp [section?]

theorem section?_eq_some_iff (hnodup : d.files.Nodup) :
    d.section? file = some s ↔ s ∈ d.sections ∧ s.file = file := by
  constructor
  · intro h
    exact ⟨List.mem_of_find?_eq_some h, by simpa using List.find?_some h⟩
  · rintro ⟨hs, rfl⟩
    cases ht : d.section? s.file with
    | none => exact absurd rfl (section?_eq_none_iff.mp ht s hs)
    | some t =>
      have hfile : t.file = s.file := by simpa using List.find?_some ht
      rw [List.inj_on_of_nodup_map hnodup (List.mem_of_find?_eq_some ht) hs hfile]

/-- The id whose blocks are shown: the one asked for if a block has it, else that of the first block. -/
def shownId (blocks : List (Block (List Span))) (id : String) : String :=
  if id ∈ blocks.map Block.sectionId then id else (blocks.head?.map Block.sectionId).getD id

theorem shownId_mem (id : String) (hne : blocks ≠ []) :
    shownId blocks id ∈ blocks.map Block.sectionId := by
  rw [shownId]
  split
  · assumption
  · obtain ⟨b, rest, rfl⟩ := List.exists_cons_of_ne_nil hne
    exact List.mem_cons_self

theorem filter_sectionId_eq_nil_iff :
    (blocks.filter fun b => b.sectionId == id) = [] ↔ id ∉ blocks.map Block.sectionId := by
  simp [List.filter_eq_nil_iff]

theorem findBlocks_of_section? (h : d.section? file = some s) :
    d.findBlocks file id = s.blocks.filter fun b => b.sectionId == shownId s.blocks id := by
  simp only [findBlocks, h]
  by_cases hid : id ∈ s.blocks.map Block.sectionId
  · rw [shownId, if_pos hid]
    split
    · next hnil _ => exact absurd hid (filter_sectionId_eq_nil_iff.mp hnil)
    · rfl
  · have hnil := filter_sectionId_eq_nil_iff.mpr hid
    rw [shownId, if_neg hid]
    split
    · next first rest _ hblocks =>
      rw [hblocks]
      rfl
    · next hfirst =>
      cases hblocks : s.blocks with
      | nil => rfl
      | cons first rest => exact absurd hblocks (hfirst first rest hnil)

theorem findBlocks_of_mem (hnodup : d.files.Nodup) (hs : s ∈ d.sections) (hfile : s.file = file) :
    d.findBlocks file id = s.blocks.filter fun b => b.sectionId == shownId s.blocks id :=
  findBlocks_of_section? ((section?_eq_some_iff hnodup).mpr ⟨hs, hfile⟩)

theorem findBlocks_eq_nil_iff (hnodup : d.files.Nodup) :
    d.findBlocks file id = [] ↔ ∀ s ∈ d.sections, s.file = file → s.blocks = [] := by
  constructor
  · intro hnil s hs hfile
    by_contra hne
    rw [findBlocks_of_mem hnodup hs hfile] at hnil
    exact filter_sectionId_eq_nil_iff.mp hnil (shownId_mem id hne)
  · intro hnil
    cases hs : d.section? file with
    | none => simp only [findBlocks, hs]
    | some s =>
      obtain ⟨hmem, hfile⟩ := (section?_eq_some_iff hnodup).mp hs
      rw [findBlocks_of_section? hs, hnil s hmem hfile]
      rfl

/-- Nothing is found if the file has no section or no blocks. Else all blocks of the file with the id
asked for are found, in their order, or all that have the id of its first block if there are none. So
what is found are all blocks of one id in the file. -/
theorem findBlocks_assemble (content : ResolvedContent) (i : Indices) (file id : String) :
    let d := assemble content i
    let found := d.findBlocks file id
    (found = [] ↔ ∀ s ∈ d.sections, s.file = file → s.blocks = []) ∧
      (∀ s ∈ d.sections, s.file = file →
        ((∃ b ∈ s.blocks, b.sectionId = id) →
          found = s.blocks.filter fun b => b.sectionId == id) ∧
        ((∀ b ∈ s.blocks, b.sectionId ≠ id) → ∀ first ∈ s.blocks.head?,
          found = s.blocks.filter fun b => b.sectionId == first.sectionId)) ∧
      ∀ b ∈ found, (∀ b' ∈ found, b'.sectionId = b.sectionId) ∧
        ∀ s ∈ d.sections, s.file = file →
          found = s.blocks.filter fun b' => b'.sectionId == b.sectionId := by
  intro d found
  have hnodup : d.files.Nodup := nodup_files_assemble content i
  have hall : ∀ s ∈ d.sections, s.file = file →
      found = s.blocks.filter fun b => b.sectionId == shownId s.blocks id :=
    fun s hs hfile => findBlocks_of_mem hnodup hs hfile
  have hshared : ∀ b ∈ found, ∀ s ∈ d.sections, s.file = file →
      found = s.blocks.filter fun b' => b'.sectionId == b.sectionId := by
    intro b hb s hs hfile
    have hfound := hall s hs hfile
    rw [hfound] at hb
    rw [hfound, beq_iff_eq.mp (List.mem_filter.mp hb).2]
  refine ⟨findBlocks_eq_nil_iff hnodup, fun s hs hfile => ⟨?_, ?_⟩, fun b hb => ⟨?_, hshared b hb⟩⟩
  · rintro ⟨b, hb, rfl⟩
    rw [hall s hs hfile, shownId, if_pos (List.mem_map_of_mem hb)]
  · intro hno first hfirst
    have hid : id ∉ s.blocks.map Block.sectionId := by
      rintro hid
      obtain ⟨b, hb, hb'⟩ := List.mem_map.mp hid
      exact hno b hb hb'
    rw [hall s hs hfile, shownId, if_neg hid, Option.mem_def.mp hfirst]
    rfl
  · intro b' hb'
    by_cases hsection : ∃ s ∈ d.sections, s.file = file
    · obtain ⟨s, hs, hfile⟩ := hsection
      rw [hshared b hb s hs hfile] at hb'
      exact beq_iff_eq.mp (List.mem_filter.mp hb').2
    · have hnil : found = [] := (findBlocks_eq_nil_iff hnodup).mpr fun s hs hfile =>
        absurd ⟨s, hs, hfile⟩ hsection
      rw [hnil] at hb
      cases hb

theorem findBlocks_assemble_apart :
    let a : Block (List Span) := ⟨"a", "A", "h1", []⟩
    let b : Block (List Span) := ⟨"b", "B", "h1", []⟩
    let again : Block (List Span) := ⟨"a", "A", "h2", [.text "More."]⟩
    let headings : List Heading := [⟨1, "B", "b", "f"⟩, ⟨1, "G", "g", "g"⟩, ⟨1, "A", "a", "f"⟩]
    let d := assemble [("f", [b]), ("f", [a, b, again])] ⟨⟨headings⟩, ⟨[]⟩⟩
    let s : Section := ⟨"f", [⟨1, "B", "b", "f"⟩, ⟨1, "A", "a", "f"⟩], [a, b, again]⟩
    s ∈ d.sections ∧ s.file = "f" ∧ d.findBlocks "f" "b" = [b] ∧ d.findBlocks "f" "c" = [a, again] ∧
      d.findBlocks "g" "b" = [] ∧ again ∈ d.findBlocks "f" "a" ∧ a.sectionId = again.sectionId := by
  intro a b again headings d s
  have hs : s ∈ d.sections := by decide
  have hagain : again ∈ d.findBlocks "f" "a" := by decide
  obtain ⟨-, hgiven, -⟩ := findBlocks_assemble [("f", [b]), ("f", [a, b, again])] _ "f" "b"
  obtain ⟨-, hother, -⟩ := findBlocks_assemble [("f", [b]), ("f", [a, b, again])] _ "f" "c"
  obtain ⟨hnone, -, -⟩ := findBlocks_assemble [("f", [b]), ("f", [a, b, again])] _ "g" "b"
  obtain ⟨-, -, hshared⟩ := findBlocks_assemble [("f", [b]), ("f", [a, b, again])] _ "f" "a"
  exact ⟨hs, rfl, (hgiven s hs rfl).1 (by decide), (hother s hs rfl).2 (by decide) a rfl,
    hnone.mpr (by decide), hagain, (hshared again hagain).1 a (by decide)⟩

/-! Neighbours. -/

def next? (d : Document) (file : String) : Option String := (d.neighbors? file).bind Neighbors.next

def previous? (d : Document) (file : String) : Option String :=
  (d.neighbors? file).bind Neighbors.previous

def neighborsAt? (d : Document) (file : String) : Option Neighbors :=
  (d.files.idxOf? file).map fun n => ⟨if n = 0 then none else d.files[n - 1]?, d.files[n + 1]?⟩

theorem neighborsIn_eq_none {previous : Option String} {files : List String} (h : file ∉ files) :
    neighborsIn previous file files = none := by
  induction files generalizing previous with
  | nil => rfl
  | cons f files ih =>
    obtain ⟨hf, hfiles⟩ := not_or.mp (List.mem_cons.not.mp h)
    rw [neighborsIn, if_neg (Ne.symm hf), ih hfiles]

theorem neighborsIn_append {previous : Option String} (h : file ∉ before) (after : List String) :
    neighborsIn previous file (before ++ file :: after) =
      some ⟨before.getLast?.or previous, after.head?⟩ := by
  induction before generalizing previous with
  | nil =>
    rw [List.nil_append, neighborsIn, if_pos rfl]
    rfl
  | cons f before ih =>
    obtain ⟨hf, hbefore⟩ := not_or.mp (List.mem_cons.not.mp h)
    rw [List.cons_append, neighborsIn, if_neg (Ne.symm hf), ih hbefore]
    cases hlast : before.getLast? <;> simp [List.getLast?_cons, hlast]

theorem neighbors?_eq_none (h : file ∉ d.files) : d.neighbors? file = none := neighborsIn_eq_none h

theorem neighbors?_of_split (hfiles : d.files = before ++ file :: after) (h : file ∉ before) :
    d.neighbors? file = some ⟨before.getLast?, after.head?⟩ := by
  rw [neighbors?, hfiles, neighborsIn_append h, Option.or_none]

theorem neighborsAt?_eq (d : Document) (file : String) : d.neighborsAt? file = d.neighbors? file := by
  by_cases hmem : file ∈ d.files
  · obtain ⟨before, after, hfiles, hfirst⟩ := List.eq_append_cons_of_mem hmem
    have hplace : d.files.idxOf? file = some before.length := by
      rw [hfiles, List.idxOf?_eq_some_iff]
      refine ⟨by simp, by simp, fun j hj he => hfirst ?_⟩
      rw [List.getElem_append_left hj] at he
      exact he ▸ List.getElem_mem hj
    rw [neighborsAt?, hplace, neighbors?_of_split hfiles hfirst, Option.map_some, hfiles]
    congr
    · cases before using List.reverseRecOn <;> simp
    · simp [List.getElem?_append_right, List.head?_eq_getElem?]
  · rw [neighborsAt?, List.idxOf?_eq_none_iff.mpr hmem, neighbors?_eq_none hmem]
    rfl

theorem neighbors?_eq_some_iff (hnodup : d.files.Nodup) : d.neighbors? file = some n ↔
    ∃ before after, d.files = before ++ file :: after ∧ n = ⟨before.getLast?, after.head?⟩ := by
  constructor
  · intro h
    have hmem : file ∈ d.files := by
      by_contra hno
      rw [neighbors?_eq_none hno] at h
      cases h
    obtain ⟨before, after, hfiles, hfirst⟩ := List.eq_append_cons_of_mem hmem
    rw [neighbors?_of_split hfiles hfirst] at h
    exact ⟨before, after, hfiles, (Option.some.inj h).symm⟩
  · rintro ⟨before, after, hfiles, rfl⟩
    apply neighbors?_of_split hfiles
    rw [hfiles] at hnodup
    exact fun hmem => (List.nodup_append.mp hnodup).2.2 file hmem file List.mem_cons_self rfl

theorem isSome_neighbors?_iff (hnodup : d.files.Nodup) :
    (d.neighbors? file).isSome ↔ file ∈ d.files := by
  rw [Option.isSome_iff_exists, List.mem_iff_append]
  simp only [neighbors?_eq_some_iff hnodup]
  constructor
  · rintro ⟨_, before, after, hfiles, -⟩
    exact ⟨before, after, hfiles⟩
  · rintro ⟨before, after, hfiles⟩
    exact ⟨_, before, after, hfiles, rfl⟩

theorem next?_eq_some_iff (hnodup : d.files.Nodup) : d.next? file = some other ↔
    ∃ before after, d.files = before ++ file :: other :: after := by
  simp only [next?, Option.bind_eq_some_iff, neighbors?_eq_some_iff hnodup]
  constructor
  · rintro ⟨_, ⟨before, after, hfiles, rfl⟩, hnext⟩
    obtain ⟨rest, rfl⟩ := List.head?_eq_some_iff.mp hnext
    exact ⟨before, rest, hfiles⟩
  · rintro ⟨before, after, hfiles⟩
    exact ⟨_, ⟨before, other :: after, hfiles, rfl⟩, rfl⟩

theorem previous?_eq_some_iff (hnodup : d.files.Nodup) : d.previous? other = some file ↔
    ∃ before after, d.files = before ++ file :: other :: after := by
  simp only [previous?, Option.bind_eq_some_iff, neighbors?_eq_some_iff hnodup]
  constructor
  · rintro ⟨_, ⟨before, after, hfiles, rfl⟩, hprevious⟩
    obtain ⟨rest, rfl⟩ := List.getLast?_eq_some_iff.mp hprevious
    rw [List.append_assoc] at hfiles
    exact ⟨rest, after, hfiles⟩
  · rintro ⟨before, after, hfiles⟩
    have hbehind : d.files = (before ++ [file]) ++ other :: after := by
      rw [hfiles, List.append_assoc, List.singleton_append]
    exact ⟨_, ⟨before ++ [file], after, hbehind, rfl⟩, List.getLast?_concat⟩

theorem previous_eq_none_iff (hnodup : d.files.Nodup) :
    (∃ n, d.neighbors? file = some n ∧ n.previous = none) ↔ d.files.head? = some file := by
  simp only [neighbors?_eq_some_iff hnodup]
  constructor
  · rintro ⟨_, ⟨before, after, hfiles, rfl⟩, hnone⟩
    obtain rfl := List.getLast?_eq_none_iff.mp hnone
    rw [hfiles]
    rfl
  · intro hfirst
    obtain ⟨after, hfiles⟩ := List.head?_eq_some_iff.mp hfirst
    exact ⟨_, ⟨[], after, hfiles, rfl⟩, rfl⟩

theorem next_eq_none_iff (hnodup : d.files.Nodup) :
    (∃ n, d.neighbors? file = some n ∧ n.next = none) ↔ d.files.getLast? = some file := by
  simp only [neighbors?_eq_some_iff hnodup]
  constructor
  · rintro ⟨_, ⟨before, after, hfiles, rfl⟩, hnone⟩
    obtain rfl := List.head?_eq_none_iff.mp hnone
    rw [hfiles]
    exact List.getLast?_concat
  · intro hlast
    obtain ⟨before, hfiles⟩ := List.getLast?_eq_some_iff.mp hlast
    exact ⟨_, ⟨before, [], hfiles, rfl⟩, rfl⟩

/-! The files, one after the other. -/

theorem next?_getElem? (hnodup : d.files.Nodup) (k : Nat) :
    d.files[k]?.bind d.next? = d.files[k + 1]? := by
  cases hk : d.files[k]? with
  | none =>
    have hlen := List.getElem?_eq_none_iff.mp hk
    rw [List.getElem?_eq_none (Nat.le_succ_of_le hlen)]
    rfl
  | some file =>
    obtain ⟨hlt, rfl⟩ := List.getElem?_eq_some_iff.mp hk
    have hsplit : d.files = d.files.take k ++ d.files[k] :: d.files.drop (k + 1) := by
      rw [List.getElem_cons_drop, List.take_append_drop]
    have hneighbors := (neighbors?_eq_some_iff hnodup).mpr ⟨_, _, hsplit, rfl⟩
    rw [Option.bind_some, next?, hneighbors, Option.bind_some, List.head?_drop]

theorem iterate_next? (hnodup : d.files.Nodup) (k : Nat) :
    (Option.bind · d.next?)^[k] d.files.head? = d.files[k]? := by
  induction k with
  | zero => exact List.head?_eq_getElem?
  | succ k ih => rw [Function.iterate_succ_apply', ih, next?_getElem? hnodup]

/-- The files of a document are linked both ways. Exactly the files of the document have neighbours,
found by place or not; one file follows another if that one goes before it; only the first has none
before it and only the last none behind it; and from the first on, each step leads to the next file,
until there is none. -/
theorem neighbors_assemble (content : ResolvedContent) (i : Indices) :
    let d := assemble content i
    (∀ f, ((d.neighbors? f).isSome ↔ f ∈ d.files) ∧ d.neighborsAt? f = d.neighbors? f) ∧
      (∀ f g, d.next? f = some g ↔ d.previous? g = some f) ∧
      (∀ f, (∃ n, d.neighbors? f = some n ∧ n.previous = none) ↔ d.files.head? = some f) ∧
      (∀ f, (∃ n, d.neighbors? f = some n ∧ n.next = none) ↔ d.files.getLast? = some f) ∧
      d.files.Nodup ∧ ∀ k, (Option.bind · d.next?)^[k] d.files.head? = d.files[k]? := by
  intro d
  have hnodup : d.files.Nodup := nodup_files_assemble content i
  refine ⟨fun f => ⟨isSome_neighbors?_iff hnodup, neighborsAt?_eq d f⟩, fun f g => ?_,
    fun f => previous_eq_none_iff hnodup, fun f => next_eq_none_iff hnodup, hnodup,
    iterate_next? hnodup⟩
  rw [next?_eq_some_iff hnodup, previous?_eq_some_iff hnodup]

end Manuscript.Document
