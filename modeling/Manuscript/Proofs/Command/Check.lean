import Manuscript.Command.Run
import Manuscript.Proofs.Document.References
import Manuscript.Proofs.Paper.Load
import Manuscript.Proofs.Text.Bytes

/-! What a check tells. Its report is the diagnostics of loading and then a warning for each token
without a record, in the order of the document; as every loaded block is in the document, a check that
passes has looked at every token of every block. -/
namespace Manuscript

def Document.Unresolved.warning (u : Document.Unresolved) : Diagnostic where
  severity := .warning
  title := match u.kind with
    | .citation => "Unresolved Citation"
    | .reference => "Unresolved Cross-Reference"
  code := match u.kind with
    | .citation => "P-4-1"
    | .reference => "P-4-2"
  problem := some <| .markdown <| match u.kind with
    | .citation => "Citation key `" ++ u.identifier ++ "` is not in the bibliography"
    | .reference => "Target `" ++ u.identifier ++ "` is not a known heading slug"
  hints := [.markdown <| match u.kind with
    | .citation => "Is the key spelled the same way as its bibliography entry?"
    | .reference => "Did the heading get renamed?"]
  location := some { file := u.file, sectionId := u.sectionId }

theorem Document.Unresolved.diagnostic_finding (u : Document.Unresolved) :
    u.finding.diagnostic = u.warning := by
  obtain ⟨file, sectionId, kind, identifier⟩ := u
  cases kind <;> rfl

namespace Paper

variable {p : Paper}

def files (p : Paper) : List String :=
  (p.headings.map Heading.file).eraseDups ++
    p.content.keys.filter fun file => file ∉ p.headings.map Heading.file

def warnings (p : Paper) : List Diagnostic :=
  p.files.flatMap fun file => ((p.content.get? file).getD []).flatMap fun b =>
    (Markup.parse b.body).filterMap fun t =>
      (Document.missing? p.headings p.sources file b.sectionId t).map Document.Unresolved.warning

/-- Every citation of a text has an entry, and every reference a heading. -/
def Covers (p : Paper) (text : String) : Prop :=
  (∀ key raw, .citation key raw ∈ Markup.parse text → key ∈ p.sources.map Source.key) ∧
    ∀ target raw, .reference target raw ∈ Markup.parse text →
      target ∈ p.headings.map Heading.slug

theorem files_document (p : Paper) : p.document.files = p.files := by
  have hnodup : p.content.keys.Nodup := p.content.nodup
  rw [document, Document.files_build, Document.fileOrder, Document.map_fst_resolve, hnodup.dedup]
  rfl

theorem diagnostics_document (p : Paper) :
    p.document.findings.map Finding.diagnostic = p.warnings := by
  have hunresolved : p.document.unresolved = p.files.flatMap fun file =>
      ((p.content.get? file).getD []).flatMap fun b => (Markup.parse b.body).filterMap
        (Document.missing? p.headings p.sources file b.sectionId) := by
    rw [← files_document, Document.files, List.flatMap_map]
    exact Document.unresolved_build p.content p.headings p.sources
  rw [Document.findings, List.map_map, hunresolved, warnings]
  simp only [List.map_flatMap, List.map_filterMap, Function.comp_def,
    Document.Unresolved.diagnostic_finding]

theorem covers_iff {text file sectionId : String} : p.Covers text ↔ ∀ t ∈ Markup.parse text,
    Document.missing? p.headings p.sources file sectionId t = none := by
  constructor
  · rintro ⟨hcited, hreferred⟩ t ht
    cases t with
    | citation key raw => exact if_pos (hcited key raw ht)
    | reference target raw => exact if_pos (hreferred target raw ht)
    | _ => rfl
  · intro h
    constructor
    · intro key raw ht
      by_contra hno
      exact absurd ((if_neg hno).symm.trans (h _ ht)) (Option.some_ne_none _)
    · intro target raw ht
      by_contra hno
      exact absurd ((if_neg hno).symm.trans (h _ ht)) (Option.some_ne_none _)

theorem mem_files_of_mem_keys {file : String} (h : file ∈ p.content.keys) : file ∈ p.files := by
  rw [← files_document]
  exact Document.mem_files_build.mpr (.inr h)

/-- No block is left out of the document, so no warning means that every block is covered. -/
theorem warnings_eq_nil_iff :
    p.warnings = [] ↔ ∀ e ∈ p.content.entries, ∀ b ∈ e.2, p.Covers b.body := by
  simp only [warnings, List.flatMap_eq_nil_iff, List.filterMap_eq_nil_iff, Option.map_eq_none_iff,
    ← covers_iff]
  constructor
  -- whether or not the contents mention its file, a block is where its file is taken up
  · intro h e he b hb
    have hblocks : (p.content.get? e.1).getD [] = e.2 := by
      rw [p.content.get?_eq_some_of_mem he, Option.getD_some]
    exact h e.1 (mem_files_of_mem_keys (List.mem_map_of_mem he)) b (hblocks ▸ hb)
  · intro h file _ b hb
    cases hget : p.content.get? file with
    | none =>
      rw [hget] at hb
      cases hb
    | some blocks =>
      rw [hget] at hb
      exact h (file, blocks) (OrderedMap.mem_of_get? hget) b hb

end Paper

namespace Command

variable {d : Disk} {c : Source} {s : Settings} {l : Loaded Paper}

theorem load_eq (hs : Settings.load d c.folder = .ok s)
    (hl : Paper.load d c.folder (c.over s) = .ok l) :
    load d c = .ok ⟨l.value, l.findings, l.value.document⟩ := by
  rw [load, hs]
  simp only [Except.mapError, bind, Except.bind, hl]
  rfl

def counts (l : Loaded Paper) : String :=
  Text.decimal l.value.files.length ++ " sections, " ++
    Text.decimal (l.value.sources.map Manuscript.Source.key).eraseDups.length ++
      " bibliography entries, " ++
    Text.decimal l.diagnostics.length ++ " degraded records, " ++
    Text.decimal l.value.warnings.length ++ " unresolved references"

theorem summary_eq (l : Loaded Paper) :
    summary ⟨l.value, l.findings, l.value.document⟩ = counts l := by
  have hfiles := congrArg List.length l.value.files_document
  have hwarnings := congrArg List.length l.value.diagnostics_document
  have hentries : l.value.document.bibliography.length =
      (l.value.sources.map Manuscript.Source.key).eraseDups.length :=
    Bibliography.size_ofSources l.value.sources
  rw [Document.files, List.length_map] at hfiles
  rw [List.length_map, Document.findings, List.length_map] at hwarnings
  rw [summary, counts, ← hfiles, ← hwarnings, ← hentries, Loaded.diagnostics, List.length_map]

/-- A paper that can be loaded is reported whole: what loading found, then a warning for each token
without a record. The exit code is zero if loading found nothing and, unless that is allowed, no
token of a loaded block is without a record; else it is one. -/
theorem check_reports_all (hs : Settings.load d c.folder = .ok s)
    (hl : Paper.load d c.folder (c.over s) = .ok l) (input : List UInt8)
    (allowUnresolved json : Bool) :
    let all := l.diagnostics ++ l.value.warnings
    ∃ text code, run d input (.check c allowUnresolved json) = .printed text code ∧
      (code = 0 ↔ l.diagnostics = [] ∧ (allowUnresolved = true ∨
        ∀ e ∈ l.value.content.entries, ∀ b ∈ e.2, l.value.Covers b.body)) ∧
      (code ≠ 0 → code = 1) ∧
      text = if json then (Json.array (all.map Diagnostic.toJson)).compact ++ "\n"
        else String.join (all.map fun g => g.text ++ "\n\n") ++ counts l ++ "\n" := by
  intro all
  have hall : diagnostics ⟨l.value, l.findings, l.value.document⟩ = all := by
    rw [diagnostics, List.map_append, Paper.diagnostics_document]
    rfl
  have hpasses : passes allowUnresolved ⟨l.value, l.findings, l.value.document⟩ = true ↔
      l.diagnostics = [] ∧ (allowUnresolved = true ∨
        ∀ e ∈ l.value.content.entries, ∀ b ∈ e.2, l.value.Covers b.body) := by
    rw [← Paper.warnings_eq_nil_iff, ← Paper.diagnostics_document]
    simp [passes, Loaded.diagnostics, Document.findings]
  have hrun : run d input (.check c allowUnresolved json) =
      .printed (report json ⟨l.value, l.findings, l.value.document⟩)
        (if passes allowUnresolved ⟨l.value, l.findings, l.value.document⟩ then 0 else 1) := by
    rw [run, load_eq hs hl]
  refine ⟨_, _, hrun, ?_, ?_, ?_⟩
  · rw [← hpasses]
    split <;> simp_all
  · split <;> simp
  · rw [report, hall, summary_eq]
    rfl

def desk : Disk where
  look path :=
    if path = "/toc.json" then .file <| Text.bytes <| String.toList <|
      "[\x7b\"text\": \"A\", \"file\": \"a\"\x7d]"
    else if path = "p/a.json" then .file <| Text.bytes <| String.toList <|
      "\x7b\"id\": \"s\", \"content\": \"[ref:b] [ref:a] [cite:k]\"\x7d"
    else .nothing .missing
  names path := if path = "p" then .ok ["a.json"] else .error .missing

theorem check_reports_all_two_missing :
    let c : Source := ⟨"p", some "/toc.json", none, true⟩
    Settings.load desk c.folder = .ok {} ∧ ∃ l, Paper.load desk c.folder (c.over {}) = .ok l ∧
      l.diagnostics = [] ∧
      l.value.warnings.map (fun g => (g.code, g.location)) =
        [(some "P-4-2", some ⟨"a", some "s", none⟩), (some "P-4-1", some ⟨"a", some "s", none⟩)] ∧
      (∃ text, run desk [] (.check c false false) = .printed text 1) ∧
      ∃ text, run desk [] (.check c true false) = .printed text 0 := by
  intro c
  have hno : desk.has (Path.join c.folder Settings.file) = false := by decide +kernel
  have hs : Settings.load desk c.folder = .ok {} := by simp [Settings.load, hno]
  have hload : (Paper.load desk c.folder (c.over {})).toOption.map (fun l => (l.findings.length,
      l.value.warnings.map fun g => (g.code, g.location))) = some (0,
        [(some "P-4-2", some ⟨"a", some "s", none⟩),
          (some "P-4-1", some ⟨"a", some "s", none⟩)]) := by decide +kernel
  obtain ⟨l, hl, hload⟩ := Paper.exists_of_toOption_map hload
  obtain ⟨hfindings, hwarnings⟩ : l.findings = [] ∧ _ := by
    simpa using hload
  have hnone : l.diagnostics = [] := by rw [Loaded.diagnostics, hfindings, List.map_nil]
  have hsome : l.value.warnings ≠ [] := by
    intro hnil
    rw [hnil] at hwarnings
    cases hwarnings
  refine ⟨hs, l, hl, hnone, hwarnings, ?_, ?_⟩
  · obtain ⟨text, code, hrun, hzero, hone, -⟩ := check_reports_all hs hl [] false false
    have hcode : code ≠ 0 := by
      intro hcode
      obtain hallowed | hcovered := (hzero.mp hcode).2
      · cases hallowed
      · exact hsome (Paper.warnings_eq_nil_iff.mpr hcovered)
    exact ⟨text, hone hcode ▸ hrun⟩
  · obtain ⟨text, code, hrun, hzero, -⟩ := check_reports_all hs hl [] true false
    exact ⟨text, hzero.mpr ⟨hnone, .inl rfl⟩ ▸ hrun⟩

end Command
end Manuscript
