import Mathlib.Data.List.Forall2
import Manuscript.Proofs.Heading.Level
import Manuscript.Proofs.Record.Items

/-! What loading a table of contents keeps. There is no finding exactly if the record has one of its two
forms, every item stands for a heading and no slug comes twice. Nothing else is looked at: levels that
denote no number, and a title, a date or authors that are no texts, are lost without a finding. -/
namespace Manuscript.Record

open Entry (Written StandsFor)

variable {v item paper : Json} {items : List Json} {index : Nat} {h : Heading}
variable {headings : List Heading} {about : Option Json} {name : String} {r : ContentsRecord}

/-- The items of a table of contents and, in the wrapped form, the object that they stand in. -/
inductive Lists (items : List Json) : Option Json → Json → Prop
  | plain : Lists items none (.array items)
  | wrapped {fields : List (String × Json)} {paper : Json} :
      (Json.object fields).field? "paper" = some paper →
      paper.field? "sections" = some (.array items) → Lists items (some paper) (.object fields)

def Meta.of (paper : Json) : Meta :=
  ⟨(paper.field? "title").bind Json.text?,
    (((paper.field? "authors").bind Json.items?).getD []).filterMap Json.text?,
    (paper.field? "date").bind Json.text?⟩

/-! The two forms. -/

theorem items?_eq_some_iff : v.items? = some items ↔ v = .array items := by
  cases v <;> simp [Json.items?]

theorem unwrap?_eq_some_iff {m : Meta} : unwrap? paper = some (items, m) ↔
    paper.field? "sections" = some (.array items) ∧ m = Meta.of paper := by
  have hitems : (paper.field? "sections").bind Json.items? = some items ↔
      paper.field? "sections" = some (.array items) := by
    simp [Option.bind_eq_some_iff, items?_eq_some_iff]
  rw [← hitems]
  cases hsections : (paper.field? "sections").bind Json.items? with
  | none => simp [unwrap?, hsections]
  | some found => simp [unwrap?, hsections, Meta.of, eq_comm]

theorem Lists.load (h : Lists items about v) :
    loadContents v = ofEntries items (about.map Meta.of) := by
  cases h with
  | plain => rfl
  | wrapped hpaper hsections =>
    have hunwrap := unwrap?_eq_some_iff.mpr ⟨hsections, rfl⟩
    simp only [loadContents, hpaper, Option.bind_some, hunwrap, Option.map_some]

theorem exists_lists (hclean : (loadContents v).findings = []) :
    ∃ items about, Lists items about v := by
  cases v with
  | array items => exact ⟨items, none, .plain⟩
  | object fields =>
    rw [loadContents] at hclean
    split at hclean
    · next items m hunwrap =>
      obtain ⟨paper, hpaper, hitems⟩ := Option.bind_eq_some_iff.mp hunwrap
      exact ⟨items, some paper, .wrapped hpaper (unwrap?_eq_some_iff.mp hitems).1⟩
    · cases hclean
  | _ => cases hclean

/-! Findings. -/

theorem readEntries_eq_iff :
    readEntries index items = (headings, []) ↔ List.Forall₂ StandsFor items headings := by
  induction items generalizing index headings with
  | nil => simp [readEntries, eq_comm]
  | cons v items ih =>
    rw [List.forall₂_cons_left_iff, readEntries]
    cases hread : Entry.read v with
    | error fault =>
      refine iff_of_false (by simp) ?_
      rintro ⟨h, -, hstands, -⟩
      rw [Entry.read_eq_ok_iff.mpr hstands] at hread
      cases hread
    | ok h =>
      simp only [Prod.mk.injEq]
      constructor
      · rintro ⟨rfl, hfindings⟩
        exact ⟨h, _, Entry.read_eq_ok_iff.mp hread, ih.mp (Prod.ext rfl hfindings), rfl⟩
      · rintro ⟨h', hs, hstands, hrest, rfl⟩
        rw [Entry.read_eq_ok_iff.mpr hstands] at hread
        cases hread
        rw [ih.mpr hrest]
        exact ⟨rfl, rfl⟩

theorem duplicateSlugs_eq_nil_iff :
    Contents.duplicateSlugs headings = [] ↔ (headings.map Heading.slug).Nodup := by
  rw [List.eq_nil_iff_forall_not_mem, List.nodup_iff_count_le_one]
  apply forall_congr'
  intro slug
  rw [Contents.mem_duplicateSlugs]
  omega

theorem Lists.load_eq_iff (h : Lists items about v) : loadContents v = ⟨r, []⟩ ↔
    List.Forall₂ StandsFor items r.headings ∧ (r.headings.map Heading.slug).Nodup ∧
      r.paper = about.map Meta.of := by
  rw [h.load, ofEntries]
  constructor
  · intro hload
    rw [Loaded.mk.injEq, List.append_eq_nil_iff, List.map_eq_nil_iff,
      duplicateSlugs_eq_nil_iff] at hload
    obtain ⟨rfl, hskipped, hslugs⟩ := hload
    exact ⟨readEntries_eq_iff.mp (Prod.ext rfl hskipped), hslugs, rfl⟩
  · rintro ⟨hstands, hslugs, hpaper⟩
    rw [readEntries_eq_iff.mpr hstands]
    simp [duplicateSlugs_eq_nil_iff.mpr hslugs, ← hpaper]

theorem diagnostics_eq_nil_iff :
    (loadContents v).diagnostics = [] ↔ loadContents v = ⟨(loadContents v).value, []⟩ := by
  rw [Loaded.diagnostics, List.map_eq_nil_iff]
  constructor
  · intro h
    rw [← h]
  · intro h
    rw [h]

theorem clean_iff : (loadContents v).diagnostics = [] ↔
    ∃ items about headings, Lists items about v ∧ List.Forall₂ StandsFor items headings ∧
      (headings.map Heading.slug).Nodup := by
  rw [diagnostics_eq_nil_iff]
  constructor
  · intro hclean
    obtain ⟨items, about, hlists⟩ := exists_lists (congrArg Loaded.findings hclean)
    obtain ⟨hstands, hslugs, -⟩ := hlists.load_eq_iff.mp hclean
    exact ⟨items, about, _, hlists, hstands, hslugs⟩
  · rintro ⟨items, about, headings, hlists, hstands, hslugs⟩
    have hload : loadContents v = ⟨⟨headings, about.map Meta.of⟩, []⟩ :=
      hlists.load_eq_iff.mpr ⟨hstands, hslugs, rfl⟩
    rw [hload]

/-! Levels. -/

def LevelKept (item : Json) (h : Heading) : Prop :=
  ∀ e level, Written e item → e.level = some level → level.value? = some h.level

def LevelDenotes (item : Json) : Prop :=
  ∀ e level, Written e item → e.level = some level → level.value? ≠ none

theorem levelKept_iff (hstands : StandsFor item h) : LevelKept item h ↔ LevelDenotes item := by
  have hread := Entry.read_eq_ok_iff.mpr hstands
  apply forall_congr'
  intro e
  apply forall_congr'
  intro level
  refine imp_congr_right fun hwritten => imp_congr_right fun hlevel => ?_
  rw [Heading.level_of_read hwritten hlevel hread]
  cases level.value? <;> simp

theorem forall_levelKept_iff (hstands : List.Forall₂ StandsFor items headings) :
    List.Forall₂ LevelKept items headings ↔ ∀ item ∈ items, LevelDenotes item := by
  induction hstands with
  | nil => simp
  | cons hitem _ ih => rw [List.forall₂_cons, levelKept_iff hitem, ih, List.forall_mem_cons]

/-! Title, date and authors. -/

def TextKept (paper : Json) (name : String) (text : Option String) : Prop :=
  ∀ v, paper.field? name = some v → ∃ t, v = .string t ∧ text = some t

def IsText (paper : Json) (name : String) : Prop :=
  ∀ v, paper.field? name = some v → v.kind = .string

theorem textKept_iff :
    TextKept paper name ((paper.field? name).bind Json.text?) ↔ IsText paper name := by
  apply forall_congr'
  intro v
  refine imp_congr_right fun hv => ?_
  rw [hv, Option.bind_some]
  cases v <;> simp [Json.text?, Json.kind]

structure Meta.Keeps (m : Meta) (paper : Json) : Prop where
  title : TextKept paper "title" m.title
  authors : ∀ v, paper.field? "authors" = some v → v = .array (m.authors.map .string)
  date : TextKept paper "date" m.date

/-- The fields of the paper that are there are texts, and a list of texts for the authors. -/
structure Describes (paper : Json) : Prop where
  title : IsText paper "title"
  authors : ∀ v, paper.field? "authors" = some v → ∃ names : List String, v = .array (names.map .string)
  date : IsText paper "date"

theorem keeps_of_iff : (Meta.of paper).Keeps paper ↔ Describes paper := by
  constructor
  · rintro ⟨htitle, hauthors, hdate⟩
    exact ⟨textKept_iff.mp htitle, fun v hv => ⟨_, hauthors v hv⟩, textKept_iff.mp hdate⟩
  · rintro ⟨htitle, hauthors, hdate⟩
    refine ⟨textKept_iff.mpr htitle, ?_, textKept_iff.mpr hdate⟩
    intro v hv
    obtain ⟨names, rfl⟩ := hauthors v hv
    simp [Meta.of, hv, Json.items?, List.filterMap_map, Function.comp_def, Json.text?]

/-! Tables of contents without findings. -/

structure Kept (items : List Json) (about : Option Json) (r : ContentsRecord) : Prop where
  entries : List.Forall₂ StandsFor items r.headings
  levels : List.Forall₂ LevelKept items r.headings
  about : ∀ paper, about = some paper → ∃ m, r.paper = some m ∧ m.Keeps paper

/-- A table of contents gives no finding exactly if it has one of the two forms, every item stands for
a heading and the slugs differ. Then there is one heading for each item; but all of it is kept only if
every level that is written denotes a number and the fields of the paper are texts, and a list of
texts for the authors. -/
theorem kept_iff_of_clean (v : Json) :
    let l := loadContents v
    (l.diagnostics = [] ↔ ∃ items about headings, Lists items about v ∧
      List.Forall₂ StandsFor items headings ∧ (headings.map Heading.slug).Nodup) ∧
    ∀ items about, Lists items about v → l.diagnostics = [] →
      List.Forall₂ StandsFor items l.value.headings ∧ l.value.paper = about.map Meta.of ∧
      (Kept items about l.value ↔
        (∀ item ∈ items, LevelDenotes item) ∧ ∀ paper, about = some paper → Describes paper) := by
  intro l
  refine ⟨clean_iff, ?_⟩
  intro items about hlists hclean
  obtain ⟨hstands, -, hpaper⟩ := hlists.load_eq_iff.mp (diagnostics_eq_nil_iff.mp hclean)
  refine ⟨hstands, hpaper, ?_⟩
  constructor
  · rintro ⟨-, hlevels, habout⟩
    refine ⟨(forall_levelKept_iff hstands).mp hlevels, ?_⟩
    rintro paper rfl
    obtain ⟨m, hm, hkeeps⟩ := habout paper rfl
    obtain rfl : Meta.of paper = m := Option.some.inj (hpaper.symm.trans hm)
    exact keeps_of_iff.mp hkeeps
  · rintro ⟨hlevels, habout⟩
    refine ⟨hstands, (forall_levelKept_iff hstands).mpr hlevels, ?_⟩
    rintro paper rfl
    exact ⟨Meta.of paper, hpaper, keeps_of_iff.mpr (habout paper rfl)⟩

theorem kept_iff_of_clean_wrapped :
    let items : List Json :=
      [.object [("file", .string "a"), ("level", .string " H2"), ("title", .string "A")],
        .array [.string "B", .null, .string "b"]]
    let paper : Json := .object [("authors", .array [.string "A. Author"]),
      ("sections", .array items), ("title", .string "T")]
    let v : Json := .object [("paper", paper)]
    let l := loadContents v
    Lists items (some paper) v ∧ l.diagnostics = [] ∧ (∀ item ∈ items, LevelDenotes item) ∧
      Describes paper ∧ Kept items (some paper) l.value ∧
      l.value = ⟨[⟨2, "A", "a", "a"⟩, ⟨1, "B", "b", "b"⟩], some ⟨some "T", ["A. Author"], none⟩⟩ := by
  intro items paper v l
  obtain ⟨-, hkept⟩ := kept_iff_of_clean v
  have hlists : Lists items (some paper) v := .wrapped rfl rfl
  have hclean : l.diagnostics = [] := by decide +kernel
  have hlevels : ∀ item ∈ items, LevelDenotes item := by
    simp only [items, List.forall_mem_cons, List.not_mem_nil, false_implies, implies_true, and_true]
    refine ⟨?_, ?_⟩ <;> intro e level hwritten hlevel
    · obtain rfl : ⟨"A", none, "a", some (.text " H2")⟩ = e :=
        Except.ok.inj (Entry.ofJson_eq_ok_iff.mpr hwritten)
      cases hlevel
      decide
    · obtain rfl : ⟨"B", none, "b", none⟩ = e :=
        Except.ok.inj (Entry.ofJson_eq_ok_iff.mpr hwritten)
      cases hlevel
  have hpaper : Describes paper := by
    refine ⟨?_, ?_, ?_⟩ <;> intro v hv
    · cases hv
      rfl
    · cases hv
      exact ⟨["A. Author"], rfl⟩
    · cases hv
  have hall := (hkept items (some paper) hlists hclean).2.2.mpr
    ⟨hlevels, fun p hp => Option.some.inj hp ▸ hpaper⟩
  exact ⟨hlists, hclean, hlevels, hpaper, hall, by decide +kernel⟩

/-- A level that denotes no number, a title that is no text and an author that is none: the level is
taken for one, the title and the author are gone, and there is no finding. -/
theorem exists_loss_without_finding : ∃ item paper : Json,
    let v : Json := .object [("paper", paper)]
    let l := loadContents v
    Lists [item] (some paper) v ∧ l.diagnostics = [] ∧
      Written ⟨"Intro", none, "a", some (.text "heading")⟩ item ∧
      Level.parse? "heading" = none ∧ l.value.headings = [⟨1, "Intro", "intro", "a"⟩] ∧
      paper.field? "title" = some (.number (.int 7)) ∧
      paper.field? "authors" = some (.array [.string "A. Author", .number (.int 5)]) ∧
      l.value.paper = some ⟨none, ["A. Author"], none⟩ ∧ ¬ Kept [item] (some paper) l.value := by
  let item : Json := .object [("file", .string "a"), ("level", .string "heading"),
    ("title", .string "Intro")]
  let paper : Json := .object [("authors", .array [.string "A. Author", .number (.int 5)]),
    ("sections", .array [item]), ("title", .number (.int 7))]
  have hwritten : Written ⟨"Intro", none, "a", some (.text "heading")⟩ item :=
    .object rfl (.inl ⟨rfl, rfl⟩) rfl (.inr rfl)
  have hnone : Level.parse? "heading" = none := by decide
  have hheadings : (loadContents (.object [("paper", paper)])).value.headings =
      [⟨1, "Intro", "intro", "a"⟩] := by decide +kernel
  refine ⟨item, paper, .wrapped rfl rfl, by decide +kernel, hwritten, hnone, hheadings, rfl, rfl,
    by decide +kernel, ?_⟩
  rintro ⟨-, hlevels, -⟩
  rw [hheadings, List.forall₂_cons] at hlevels
  have hkept : Level.value? (.text "heading") = some 1 := hlevels.1 _ _ hwritten rfl
  rw [Level.value?, hnone] at hkept
  cases hkept

end Manuscript.Record
