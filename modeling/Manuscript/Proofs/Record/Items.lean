import Manuscript.Proofs.Contents
import Manuscript.Proofs.Finding
import Manuscript.Proofs.Record.Entry
import Manuscript.Record.Bibliography

/-! Lists of items. Each item of the table of contents or of the bibliography either comes out, in
its order, or is reported under its number, and no item does both. -/
namespace Manuscript.Record

variable {α : Type} {take : Json → Option α} {items : List Json} {index : Nat} {v : Json}

/-- The numbers, from `index` on, of the items that are not taken. -/
def missed (take : Json → Option α) (index : Nat) (items : List Json) : List Nat :=
  ((items.zipIdx index).filter fun p => (take p.1).isNone).map Prod.snd

theorem missed_cons (take : Json → Option α) (index : Nat) (v : Json) (items : List Json) :
    missed take index (v :: items) =
      if (take v).isNone then index :: missed take (index + 1) items
      else missed take (index + 1) items := by
  cases h : take v <;> simp [missed, List.zipIdx_cons, h]

theorem length_taken_add_missed (take : Json → Option α) (index : Nat) (items : List Json) :
    (items.filterMap take).length + (missed take index items).length = items.length := by
  induction items generalizing index with
  | nil => rfl
  | cons v items ih =>
    have hrest := ih (index + 1)
    rw [missed_cons]
    cases h : take v with
    | none =>
      rw [List.filterMap_cons_none h]
      simp
      omega
    | some a =>
      rw [List.filterMap_cons_some h]
      simp
      omega

/-! What each list gives. -/

theorem readEntries_fst (index : Nat) (items : List Json) :
    (readEntries index items).1 = items.filterMap Entry.heading? := by
  induction items generalizing index with
  | nil => rfl
  | cons v items ih =>
    simp only [readEntries, List.filterMap_cons, Entry.heading?]
    cases Entry.read v <;> simp [Except.toOption, ih]

theorem slug_of_mem_readEntries {h : Heading} (hh : h ∈ (readEntries index items).1) :
    h.slug ≠ "" ∧ Text.strip h.slug = h.slug := by
  rw [readEntries_fst] at hh
  obtain ⟨v, -, hv⟩ := List.mem_filterMap.mp hh
  exact (Entry.heading?_eq_some_iff.mp hv).slug

theorem readSources_fst (index : Nat) (items : List Json) :
    (readSources index items).1 = items.filterMap source? := by
  induction items generalizing index with
  | nil => rfl
  | cons v items ih =>
    simp only [readSources, List.filterMap_cons]
    cases source? v <;> simp [ih]

/-! What each list reports. -/

def sign (g : Diagnostic) : Severity × Option String × Option Location :=
  (g.severity, g.code, g.location)

theorem sign_diagnostic (f : Finding) :
    sign f.diagnostic = (.warning, some f.code.text, some f.location) := by
  rw [Finding.diagnostic_eq, sign]

theorem sign_readEntries (index : Nat) (items : List Json) :
    (readEntries index items).2.map (fun f => sign f.diagnostic) =
      (missed Entry.heading? index items).map fun i =>
        (.warning, some "P-1-2", some { file := "toc", block := some (.ofNat i) }) := by
  induction items generalizing index with
  | nil => rfl
  | cons v items ih =>
    rw [missed_cons, readEntries]
    cases h : Entry.read v with
    | ok heading => simpa [Entry.heading?, h, Except.toOption] using ih (index + 1)
    | error fault =>
      simp only [Entry.heading?, h, Except.toOption, Option.isNone_none, if_true, List.map_cons,
        sign_diagnostic]
      rw [← ih (index + 1)]
      simp [Finding.code, Finding.location, Code.text, sign_diagnostic]

theorem sign_readSources (index : Nat) (items : List Json) :
    (readSources index items).2.map (fun f => sign f.diagnostic) =
      (missed source? index items).map fun i =>
        (.warning, some "P-3-2", some { file := "bibliography", block := some (.ofNat i) }) := by
  induction items generalizing index with
  | nil => rfl
  | cons v items ih =>
    rw [missed_cons, readSources]
    cases h : source? v with
    | some s => simpa [h] using ih (index + 1)
    | none =>
      simp only [Option.isNone_none, if_true, List.map_cons, sign_diagnostic]
      rw [← ih (index + 1)]
      simp [Finding.code, Finding.location, Code.text, sign_diagnostic]

/-- An object with a key that is not blank and a text, both without the blanks around them. -/
def IsSource (v : Json) (s : Source) : Prop :=
  ∃ fields key text, v = .object fields ∧ v.field? "key" = some (.string key) ∧
    v.field? "text" = some (.string text) ∧ Text.allBlank key.toList = false ∧
    s = ⟨Text.strip key, Text.strip text⟩

theorem text?_eq_some_iff {t : String} : v.text? = some t ↔ v = .string t := by
  cases v <;> simp [Json.text?]

theorem field?_text_eq_some_iff {name t : String} :
    (v.field? name).bind Json.text? = some t ↔ v.field? name = some (.string t) := by
  simp [Option.bind_eq_some_iff, text?_eq_some_iff]

theorem source?_eq_some_iff {s : Source} : source? v = some s ↔ IsSource v s := by
  unfold source? IsSource
  constructor
  · intro h
    split at h
    · next key text hkey htext =>
      split at h
      · cases h
      · next hblank =>
        cases h
        rw [field?_text_eq_some_iff] at hkey htext
        cases v with
        | object fields =>
          exact ⟨fields, key, text, rfl, hkey, htext, by simpa using hblank, rfl⟩
        | _ => cases hkey
    · cases h
  · rintro ⟨fields, key, text, -, hkey, htext, hblank, rfl⟩
    rw [← field?_text_eq_some_iff] at hkey htext
    simp [hkey, htext, hblank]

/-! The two forms of the table of contents. -/

theorem loadContents_wrapped {fields : List (String × Json)} {paper : Json}
    (hpaper : (Json.object fields).field? "paper" = some paper)
    (hsections : paper.field? "sections" = some (.array items)) :
    ∃ about, loadContents (.object fields) = ofEntries items (some about) := by
  have hitems : (paper.field? "sections").bind Json.items? = some items := by
    rw [hsections]
    rfl
  simp only [loadContents, hpaper, Option.bind_some, unwrap?, hitems]
  exact ⟨_, rfl⟩

theorem diagnostics_ofEntries (items : List Json) (about : Option Meta) :
    (ofEntries items about).diagnostics =
      (readEntries 0 items).2.map Finding.diagnostic ++
        (Contents.duplicateSlugs (readEntries 0 items).1).map fun slug =>
          (Finding.slugRepeated slug).diagnostic := by
  simp [ofEntries, Loaded.diagnostics]

/-- The items that stand for headings are the headings, in order; every other one is reported under
its number, and after them every slug that two headings carry, by its first heading. It is the same
under `paper.sections`. Likewise the sources are the items that stand for one, and every other item
is reported. -/
theorem every_item_counted (items : List Json) :
    let l := loadContents (.array items)
    let b := loadBibliography (.array items)
    ((∀ v h, Entry.heading? v = some h ↔ Entry.StandsFor v h) ∧
      l.value.headings = items.filterMap Entry.heading? ∧
      (∀ h ∈ l.value.headings, h.slug ≠ "" ∧ Text.strip h.slug = h.slug) ∧
      (∃ skipped repeated, l.diagnostics = skipped ++ repeated ∧
        skipped.map sign = ((missed Entry.heading? 0 items).map fun i =>
          (.warning, some "P-1-2", some { file := "toc", block := some (.ofNat i) })) ∧
        l.value.headings.length + skipped.length = items.length ∧
        repeated.map (fun g => (sign g, g.problem)) =
          ((l.value.headings.map Heading.slug).eraseDups.filter fun slug =>
            2 ≤ (l.value.headings.map Heading.slug).count slug).map fun slug =>
              ((.warning, some "P-1-3", some { file := "toc" }),
                some (.markdown ("Slug `" ++ slug ++ "` appears on more than one entry")))) ∧
      ∀ fields paper, (Json.object fields).field? "paper" = some paper →
        paper.field? "sections" = some (.array items) →
        (loadContents (.object fields)).value.headings = l.value.headings ∧
          (loadContents (.object fields)).diagnostics = l.diagnostics) ∧
    (∀ v s, source? v = some s ↔ IsSource v s) ∧
      b.value = items.filterMap source? ∧
      b.diagnostics.map sign = ((missed source? 0 items).map fun i =>
        (.warning, some "P-3-2", some { file := "bibliography", block := some (.ofNat i) })) ∧
      b.value.length + b.diagnostics.length = items.length := by
  intro l b
  have hheadings : l.value.headings = items.filterMap Entry.heading? := readEntries_fst 0 items
  have hsources : b.value = items.filterMap source? := readSources_fst 0 items
  have hskipped : ((readEntries 0 items).2.map Finding.diagnostic).map sign =
      (missed Entry.heading? 0 items).map fun i =>
        (.warning, some "P-1-2", some { file := "toc", block := some (.ofNat i) }) :=
    (List.map_map ..).trans (sign_readEntries 0 items)
  have hreported : b.diagnostics.map sign = (missed source? 0 items).map fun i =>
      (.warning, some "P-3-2", some { file := "bibliography", block := some (.ofNat i) }) :=
    (List.map_map ..).trans (sign_readSources 0 items)
  refine ⟨⟨fun v h => Entry.heading?_eq_some_iff, hheadings, fun h hh => slug_of_mem_readEntries hh,
    ?_, ?_⟩, fun v s => source?_eq_some_iff, hsources, hreported, ?_⟩
  · refine ⟨_, _, diagnostics_ofEntries items none, hskipped, ?_, ?_⟩
    · have hlength := congrArg List.length hskipped
      simp only [List.length_map] at hlength ⊢
      rw [hheadings, hlength]
      exact length_taken_add_missed Entry.heading? 0 items
    · rw [List.map_map, ← Contents.duplicateSlugs_eq]
      apply List.map_congr_left
      intro slug _
      simp only [Function.comp_def, sign, Finding.diagnostic_eq]
      rfl
  · intro fields paper hpaper hsections
    obtain ⟨about, hload⟩ := loadContents_wrapped hpaper hsections
    rw [hload]
    exact ⟨rfl, (diagnostics_ofEntries items _).trans (diagnostics_ofEntries items none).symm⟩
  · have hlength := congrArg List.length hreported
    simp only [List.length_map] at hlength
    rw [hsources, hlength]
    exact length_taken_add_missed source? 0 items

theorem every_item_counted_wrapped :
    let items : List Json :=
      [.object [("file", .string "a"), ("id", .string " x "), ("title", .string "X")], .null,
        .array [.string "Y", .string "x", .string "b"]]
    let paper : Json := .object [("authors", .null), ("sections", .array items)]
    let l := loadContents (.object [("paper", paper)])
    (Json.object [("paper", paper)]).field? "paper" = some paper ∧
      paper.field? "sections" = some (.array items) ∧
      l.value.headings = [⟨1, "X", "x", "a"⟩, ⟨1, "Y", "x", "b"⟩] ∧
      l.diagnostics.map sign =
        [(.warning, some "P-1-2", some { file := "toc", block := some 1 }),
          (.warning, some "P-1-3", some { file := "toc" })] := by
  intro items paper l
  obtain ⟨⟨-, hheadings, -, -, hwrapped⟩, -⟩ := every_item_counted items
  have hpaper : (Json.object [("paper", paper)]).field? "paper" = some paper := rfl
  have hsections : paper.field? "sections" = some (.array items) := rfl
  obtain ⟨hsame, hdiagnostics⟩ := hwrapped [("paper", paper)] paper hpaper hsections
  refine ⟨hpaper, hsections, (hsame.trans hheadings).trans (by decide +kernel), ?_⟩
  rw [hdiagnostics]
  decide +kernel

end Manuscript.Record
