import Manuscript.Proofs.Heading.Repeated
import Manuscript.Proofs.Paper.Findings
import Manuscript.Proofs.Record.Normal
import Manuscript.Proofs.Text.Bytes

/-! Repeated slugs of a loaded paper. Those of a table of contents that was read are reported, each once.
One that was derived is not looked at: it repeats the ids of sections that have more than one run of
blocks, and nothing says so. -/
namespace Manuscript

namespace Finding

variable {f : Finding} {slug slug' : String}

def tellsRepeated (slug : String) : Finding → Bool
  | slugRepeated s => s == slug
  | _ => false

theorem not_tellsRepeated (h : f.origin ≠ .contents) : f.tellsRepeated slug = false := by
  cases f with
  | slugRepeated s => exact absurd rfl h
  | _ => rfl

def repeatedProblem (slug : String) : String :=
  "Slug `" ++ slug ++ "` appears on more than one entry"

theorem repeatedProblem_inj : repeatedProblem slug = repeatedProblem slug' ↔ slug = slug' := by
  constructor
  · intro h
    apply String.toList_inj.mp
    simpa [repeatedProblem] using congrArg String.toList h
  · rintro rfl
    rfl

theorem code_eq_duplicateSlug_iff : f.code = .duplicateSlug ↔ ∃ slug, f = .slugRepeated slug := by
  constructor
  · intro h
    cases f with
    | slugRepeated slug => exact ⟨slug, rfl⟩
    | notJson record => cases record <;> cases h
    | _ => cases h
  · rintro ⟨slug, rfl⟩
    rfl

theorem diagnostic_code_iff : f.diagnostic.code = some "P-1-3" ↔ ∃ slug, f = .slugRepeated slug := by
  rw [← code_eq_duplicateSlug_iff, diagnostic_eq]
  cases f.code <;> simp [Code.text]

theorem tellsRepeated_iff (slug : String) (f : Finding) : f.tellsRepeated slug = true ↔
    f.diagnostic.severity = .warning ∧ f.diagnostic.code = some "P-1-3" ∧
      f.diagnostic.problem = some (.markdown (repeatedProblem slug)) := by
  constructor
  · intro h
    cases f with
    | slugRepeated s =>
      rw [← beq_iff_eq.mp h, diagnostic_eq]
      exact ⟨rfl, rfl, rfl⟩
    | _ => cases h
  · rintro ⟨-, hcode, hproblem⟩
    obtain ⟨s, rfl⟩ := diagnostic_code_iff.mp hcode
    rw [diagnostic_eq] at hproblem
    exact beq_iff_eq.mpr (repeatedProblem_inj.mp (Message.markdown.inj (Option.some.inj hproblem)))

end Finding

theorem Record.countP_loadContents (v : Json) (slug : String) :
    (loadContents v).findings.countP (Finding.tellsRepeated slug) =
      (Contents.duplicateSlugs (loadContents v).value.headings).count slug := by
  obtain ⟨items, about, hl⟩ | ⟨f, hf, hl⟩ := loadContents_cases v
  · have hentries : (readEntries 0 items).2.countP (Finding.tellsRepeated slug) = 0 := by
      apply Paper.countP_eq_zero
      intro f hf
      rw [← Bool.not_eq_true, Finding.tellsRepeated_iff, code_of_mem_readEntries hf]
      simp
    simp only [hl, ofEntries, List.countP_append, hentries, List.countP_map, Nat.zero_add]
    rfl
  · have hother : f.tellsRepeated slug = false := by
      rw [← Bool.not_eq_true, Finding.tellsRepeated_iff, Finding.diagnostic_eq, hf]
      simp [Code.text]
    rw [hl, List.countP_singleton, hother]
    rfl

namespace Paper

open Heading (runSections)

variable {d : Disk} {folder : String} {s : Settings} {slug : String}

theorem ReadsContents.countP_eq {c : Loaded Record.ContentsRecord} (h : ReadsContents d folder s c)
    (slug : String) : c.findings.countP (Finding.tellsRepeated slug) =
      (Contents.duplicateSlugs c.value.headings).count slug := by
  cases h with
  | missing =>
    dsimp only
    split <;> rfl
  | notJson => rfl
  | value => exact Record.countP_loadContents _ slug

theorem orDerived_cases (folder : String) (s : Settings) (content : Content)
    (headings : List Heading) :
    let v := (orDerived folder s content headings).value
    v.2 = false ∧ v.1 = headings ∨ v.2 = true ∧ headings = [] ∧ v.1 = Heading.derive content := by
  unfold orDerived
  split
  · next h =>
    simp only [Bool.and_eq_true, List.isEmpty_iff] at h
    exact .inr ⟨rfl, h.1.1, rfl⟩
  · exact .inl ⟨rfl, rfl⟩

theorem exists_countP_load {l : Loaded Paper} (h : load d folder s = .ok l) :
    ∃ headings, (∀ slug, l.findings.countP (Finding.tellsRepeated slug) =
        (Contents.duplicateSlugs headings).count slug) ∧
      (l.value.derived = false ∧ l.value.headings = headings ∨
        l.value.derived = true ∧ headings = [] ∧
          l.value.headings = Heading.derive l.value.content) := by
  obtain ⟨found, contents, sources, -, hcontents, hsources, rfl⟩ := parts_of_load h
  refine ⟨contents.value.headings, ?_, orDerived_cases folder s _ _⟩
  intro slug
  have hother {places : List (Finding.Origin × String)} {findings : List Finding}
      (hplaces : ∀ p ∈ places, p.1 ≠ .contents) (hin : ∀ g ∈ findings, g.place ∈ places) :
      findings.countP (Finding.tellsRepeated slug) = 0 :=
    countP_eq_zero fun g hg => Finding.not_tellsRepeated (hplaces _ (hin g hg))
  have hsections : ∀ p ∈ found.flatMap sectionPlaces, p.1 ≠ .contents := by
    intro p hp
    obtain ⟨f, -, hp⟩ := List.mem_flatMap.mp hp
    simp only [sectionPlaces, List.mem_cons, List.not_mem_nil, or_false] at hp
    obtain rfl | rfl := hp <;> exact Finding.Origin.noConfusion
  simp only [List.countP_append]
  rw [(readsContents hcontents).countP_eq slug,
    hother hsections fun g hg => place_of_mem_readSections hg,
    hother (by simp) fun g hg => List.mem_singleton.mpr (place_of_mem_orDerived hg),
    hother (by simp [sourcesPlaces]) fun g hg => (readsSources hsources).place_mem hg]
  omega

/-- If the table of contents was read, each slug that two headings or more carry is reported once, and
no other is. If it was derived, none is reported, and the slugs that two headings or more carry are
the ids of the sections that have two runs of blocks or more. -/
theorem repeated_slugs_of_load {l : Loaded Paper} (h : load d folder s = .ok l) (slug : String) :
    let reported := l.diagnostics.countP fun g => g.severity = .warning ∧ g.code = some "P-1-3" ∧
      g.problem = some (.markdown ("Slug `" ++ slug ++ "` appears on more than one entry"))
    let carried := (l.value.headings.map Heading.slug).count slug
    (l.value.derived = false → reported = if 2 ≤ carried then 1 else 0) ∧
      (l.value.derived = true → (∀ g ∈ l.diagnostics, g.code ≠ some "P-1-3") ∧
        (2 ≤ carried ↔ 2 ≤ (runSections l.value.content.entries).count slug)) := by
  intro reported carried
  have hreported : reported = l.findings.countP (Finding.tellsRepeated slug) :=
    countP_diagnostics l (Finding.tellsRepeated_iff slug)
  obtain ⟨headings, hcount, ⟨hread, hheadings⟩ | ⟨hderived, rfl, hheadings⟩⟩ := exists_countP_load h
  · refine ⟨?_, fun hderived => absurd (hread.symm.trans hderived) Bool.false_ne_true⟩
    intro _
    rw [hreported, hcount, Contents.count_duplicateSlugs, ← hheadings]
  · refine ⟨fun hread => absurd (hread.symm.trans hderived) Bool.false_ne_true, ?_⟩
    intro _
    refine ⟨?_, ?_⟩
    · intro g hg hcode
      obtain ⟨f, hf, rfl⟩ := List.mem_map.mp hg
      obtain ⟨s, rfl⟩ := Finding.diagnostic_code_iff.mp hcode
      exact List.countP_eq_zero.mp (hcount s) _ hf (beq_self_eq_true s)
    · have hcarried : carried = ((Heading.derive l.value.content).map Heading.slug).count slug := by
        rw [← hheadings]
      rw [hcarried]
      exact Heading.two_le_count_derive l.value.content slug

def twins : Disk where
  look path :=
    if path = "/toc.json" then .file <| Text.bytes <| String.toList <|
      "[[\"A\", \"intro\", \"a\", 1], [\"B\", \"intro\", \"b\", 1]]"
    else if path = "content/a.json" then .file <| Text.bytes <| String.toList <|
      "\x7b\"title\":\"Intro\",\"id\":\"intro\",\"content\":\"A\"\x7d"
    else if path = "content/b.json" then .file <| Text.bytes <| String.toList <|
      "\x7b\"title\":\"Intro\",\"id\":\"intro\",\"content\":\"B\"\x7d"
    else .nothing .missing
  names path := if path = "content" then .ok ["a.json", "b.json"] else .error .missing

theorem repeated_slugs_of_load_twins :
    ∃ l l', load twins "content" { contents := "/toc.json" } = .ok l ∧
      load twins "content" {} = .ok l' ∧
      (l.diagnostics.countP fun g => g.severity = .warning ∧ g.code = some "P-1-3" ∧
        g.problem = some (.markdown "Slug `intro` appears on more than one entry")) = 1 ∧
      (∀ g ∈ l'.diagnostics, g.code ≠ some "P-1-3") ∧
      2 ≤ (l'.value.headings.map Heading.slug).count "intro" := by
  have hread : (load twins "content" { contents := "/toc.json" }).toOption.map (fun l =>
      (l.value.derived, (l.value.headings.map Heading.slug).count "intro")) = some (false, 2) := by
    rw [load, sectionFiles_of_sorted rfl (by decide)]
    decide +kernel
  have hderived : (load twins "content" {}).toOption.map (fun l =>
      (l.value.derived, (runSections l.value.content.entries).count "intro")) = some (true, 2) := by
    rw [load, sectionFiles_of_sorted rfl (by decide)]
    decide +kernel
  obtain ⟨l, hl, hread⟩ := exists_of_toOption_map hread
  obtain ⟨l', hl', hderived⟩ := exists_of_toOption_map hderived
  rw [Prod.mk.injEq] at hread hderived
  obtain ⟨hreported, -⟩ := repeated_slugs_of_load hl "intro"
  obtain ⟨-, hnone⟩ := repeated_slugs_of_load hl' "intro"
  obtain ⟨hsilent, hcarried⟩ := hnone hderived.1
  refine ⟨l, l', hl, hl', ?_, hsilent, hcarried.mpr (le_of_eq hderived.2.symm)⟩
  rw [hread.2] at hreported
  exact hreported hread.1

/-- A derived table of contents has the slug of two section files twice, and no diagnostic says so. -/
theorem exists_repeated_slug_unreported :
    ∃ l slug, load twins "content" {} = .ok l ∧
      2 ≤ (l.value.headings.map Heading.slug).count slug ∧
      (l.diagnostics.countP fun g => g.severity = .warning ∧ g.code = some "P-1-3" ∧
        g.problem = some (.markdown ("Slug `" ++ slug ++ "` appears on more than one entry"))) ≠
          1 := by
  have hload : (load twins "content" {}).toOption.map (fun l =>
      ((l.value.headings.map Heading.slug).count "intro", l.diagnostics.map Diagnostic.code)) =
        some (2, [some "P-1-4"]) := by
    rw [load, sectionFiles_of_sorted rfl (by decide)]
    decide +kernel
  obtain ⟨l, hl, hload⟩ := exists_of_toOption_map hload
  obtain ⟨hcarried, hcodes⟩ := Prod.mk.inj hload
  refine ⟨l, "intro", hl, le_of_eq hcarried.symm, ?_⟩
  have hsilent : ∀ g ∈ l.diagnostics, g.code ≠ some "P-1-3" := by
    intro g hg hcode
    have hmem : some "P-1-3" ∈ l.diagnostics.map Diagnostic.code := List.mem_map.mpr ⟨g, hg, hcode⟩
    rw [hcodes] at hmem
    revert hmem
    decide
  rw [List.countP_eq_zero.mpr]
  · decide
  · intro g hg hreports
    exact hsilent g hg (of_decide_eq_true hreports).2.1

end Paper
end Manuscript
