import Manuscript.Proofs.Record.Field
import Manuscript.Proofs.Record.Section
import Manuscript.Record.Contents

/-! Entries of the table of contents. What an item must be written as to be one, by the names of its
fields or in their order, and which heading it then stands for; reading takes these items and no
others. -/
namespace Manuscript.Record.Entry

variable {d d' : Draft} {e : Entry} {v : Json} {h g : Heading}
variable {field : String × Json} {fields more done : List (String × Json)} {items : List Json}

/-- An object with these fields, where an alias counts as the field itself, or an array of them. -/
inductive Written (e : Entry) : Json → Prop
  | object {fields : List (String × Json)} :
      named ["text", "title"] fields = [.string e.text] →
      Given .string (named ["slug", "id"] fields) e.slug →
      named ["file"] fields = [.string e.file] →
      Given Level.json (named ["level"] fields) e.level → Written e (.object fields)
  | array {levels : List Json} : Given Level.json levels e.level →
      Written e (.array
        ([.string e.text, Json.ofOption .string e.slug, .string e.file] ++ levels))

/-! Objects. -/

structure Draft.Holds (fields : List (String × Json)) (d : Draft) : Prop where
  text : named ["text", "title"] fields = written .string d.text
  slug : named ["slug", "id"] fields = written (Json.ofOption .string) d.slug
  file : named ["file"] fields = written .string d.file
  level : named ["level"] fields = written (Json.ofOption Level.json) d.level

theorem Draft.holds_nil : Draft.Holds [] {} := ⟨rfl, rfl, rfl, rfl⟩

theorem Draft.Holds.concat_iff (hd : d.Holds done) : d'.Holds (done ++ [field]) ↔
    written .string d.text ++ named ["text", "title"] [field] = written .string d'.text ∧
    written (Json.ofOption .string) d.slug ++ named ["slug", "id"] [field] =
      written (Json.ofOption .string) d'.slug ∧
    written .string d.file ++ named ["file"] [field] = written .string d'.file ∧
    written (Json.ofOption Level.json) d.level ++ named ["level"] [field] =
      written (Json.ofOption Level.json) d'.level := by
  rw [← hd.text, ← hd.slug, ← hd.file, ← hd.level]
  simp only [← named_append]
  exact ⟨fun h => ⟨h.text, h.slug, h.file, h.level⟩, fun ⟨h1, h2, h3, h4⟩ => ⟨h1, h2, h3, h4⟩⟩

theorem Draft.set_eq_ok_iff (hd : d.Holds done) :
    d.set field = .ok d' ↔ d'.Holds (done ++ [field]) := by
  obtain ⟨name, v⟩ := field
  obtain ⟨text, slug, file, level⟩ := d
  obtain ⟨text', slug', file', level'⟩ := d'
  rw [hd.concat_iff]
  unfold set
  split
  case h_7 htext htitle hslug hid hfile hlevel =>
    have hother : ∀ known ∈ ["text", "title", "slug", "id", "file", "level"], name ≠ known := by
      simpa using ⟨htext, htitle, hslug, hid, hfile, hlevel⟩
    simp_all [named_singleton, asText_undoes.written_inj, optional_asText_undoes.written_inj,
      optional_asLevel_undoes.written_inj]
  -- the field under this name takes the value, the other three stay
  all_goals
    next hname =>
    cases hname
    simp only [map_eq_ok_iff, once_eq_ok_iff asText_undoes, once_eq_ok_iff optional_asText_undoes,
      once_eq_ok_iff optional_asLevel_undoes, named_singleton, mk.injEq]
    constructor
    · rintro ⟨new, hnew, rfl, rfl, rfl, rfl⟩
      simpa using hnew
    · intro h
      simp_all [asText_undoes.written_inj, optional_asText_undoes.written_inj,
        optional_asLevel_undoes.written_inj]

theorem Draft.Holds.unique (h : d.Holds fields) (h' : d'.Holds fields) : d = d' := by
  have htext := asText_undoes.written_inj.mp (h.text.symm.trans h'.text)
  have hslug := optional_asText_undoes.written_inj.mp (h.slug.symm.trans h'.slug)
  have hfile := asText_undoes.written_inj.mp (h.file.symm.trans h'.file)
  have hlevel := optional_asLevel_undoes.written_inj.mp (h.level.symm.trans h'.level)
  cases d
  cases d'
  cases htext
  cases hslug
  cases hfile
  cases hlevel
  rfl

theorem Draft.exists_holds_of_append (h : d.Holds (fields ++ more)) :
    ∃ d' : Draft, d'.Holds fields := by
  obtain ⟨htext, hslug, hfile, hlevel⟩ := h
  rw [named_append] at htext hslug hfile hlevel
  obtain ⟨text, htext⟩ := exists_written_of_append htext
  obtain ⟨slug, hslug⟩ := exists_written_of_append hslug
  obtain ⟨file, hfile⟩ := exists_written_of_append hfile
  obtain ⟨level, hlevel⟩ := exists_written_of_append hlevel
  exact ⟨⟨text, slug, file, level⟩, htext, hslug, hfile, hlevel⟩

theorem Draft.foldlM_eq_ok_iff (hd : d.Holds done) :
    fields.foldlM Draft.set d = .ok d' ↔ d'.Holds (done ++ fields) := by
  induction fields generalizing d done with
  | nil =>
    rw [List.append_nil, List.foldlM_nil]
    constructor
    · intro h
      cases h
      exact hd
    · intro h
      rw [hd.unique h]
      rfl
  | cons field fields ih =>
    rw [List.foldlM_cons, bind_eq_ok_iff, List.append_cons]
    constructor
    · rintro ⟨next, hset, hrest⟩
      exact (ih ((set_eq_ok_iff hd).mp hset)).mp hrest
    · intro h
      obtain ⟨next, hnext⟩ := exists_holds_of_append h
      exact ⟨next, (set_eq_ok_iff hd).mpr hnext, (ih hnext).mpr h⟩

theorem ofFields_eq_ok_iff : ofFields fields = .ok e ↔ Written e (.object fields) := by
  simp only [ofFields, bind_eq_ok_iff, required_eq_ok_iff, Draft.foldlM_eq_ok_iff Draft.holds_nil,
    List.nil_append]
  constructor
  · rintro ⟨d, hd, text, htext, file, hfile, he⟩
    cases he
    refine .object ?_ (given_iff.mpr ⟨d.slug, hd.slug, rfl⟩) ?_
      (given_iff.mpr ⟨d.level, hd.level, rfl⟩)
    · rw [hd.text, htext]
      rfl
    · rw [hd.file, hfile]
      rfl
  · intro h
    cases h with
    | object htext hslug hfile hlevel =>
      obtain ⟨slug, hslug, hs⟩ := given_iff.mp hslug
      obtain ⟨level, hlevel, hl⟩ := given_iff.mp hlevel
      refine ⟨⟨some e.text, slug, some e.file, level⟩, ⟨htext, hslug, hfile, hlevel⟩, e.text, rfl,
        e.file, rfl, ?_⟩
      rw [hs, hl]
      rfl

/-! Arrays. -/

theorem ofItems_eq_ok_iff : ofItems items = .ok e ↔ Written e (.array items) := by
  simp only [ofItems, bind_eq_ok_iff, Prod.exists, nextOr_error_eq_ok_iff asText_undoes,
    nextOr_ok_eq_ok_iff optional_asText_undoes, nextOr_ok_eq_ok_iff optional_asLevel_undoes,
    noMore_eq_ok_iff]
  constructor
  · rintro ⟨text, _, rfl, slug, _, hslug, file, rest, rfl, level, _, hlevel, _, rfl, he⟩
    obtain ⟨-, -, hno⟩ | rfl := hslug
    · cases hno
    cases he
    refine .array ?_
    obtain ⟨hrest, hnone, -⟩ | hrest := hlevel
    · exact .inl ⟨hrest, hnone⟩
    · exact .inr hrest
  · intro h
    cases h with
    | array hlevel =>
      refine ⟨e.text, _, rfl, e.slug, _, .inr rfl, e.file, _, rfl, e.level, [], ?_, (), rfl, rfl⟩
      obtain ⟨hrest, hnone⟩ | hrest := hlevel
      · exact .inl ⟨hrest, hnone, rfl⟩
      · exact .inr hrest

theorem ofJson_eq_ok_iff : ofJson v = .ok e ↔ Written e v := by
  cases v with
  | object fields => exact ofFields_eq_ok_iff
  | array items => exact ofItems_eq_ok_iff
  | _ =>
    refine iff_of_false ?_ ?_ <;> intro h <;> cases h

/-! Headings. -/

/-- The heading of an item that is written as an entry and has a slug, or a text to make one of. -/
def StandsFor (v : Json) (h : Heading) : Prop :=
  ∃ e, Written e v ∧ h.slug ≠ "" ∧
    h = ⟨(e.level.bind Level.value?).getD 1, e.text, slugOr e.slug e.text, e.file⟩

def heading? (v : Json) : Option Heading := (read v).toOption

theorem heading_eq_ok_iff : e.heading = .ok h ↔ h.slug ≠ "" ∧
    h = ⟨(e.level.bind Level.value?).getD 1, e.text, slugOr e.slug e.text, e.file⟩ := by
  simp only [heading]
  split
  · next hempty =>
    refine iff_of_false (by simp) ?_
    rintro ⟨hne, rfl⟩
    exact hne (String.isEmpty_iff.mp hempty)
  · next hempty =>
    rw [Except.ok.injEq]
    constructor
    · rintro rfl
      exact ⟨fun h => hempty (String.isEmpty_iff.mpr h), rfl⟩
    · rintro ⟨-, rfl⟩
      rfl

theorem read_eq_ok_iff : read v = .ok h ↔ StandsFor v h := by
  unfold read StandsFor
  constructor
  · intro hr
    split at hr
    · next e he => exact ⟨e, ofJson_eq_ok_iff.mp he, heading_eq_ok_iff.mp hr⟩
    · cases hr
  · rintro ⟨e, he, hh⟩
    simp only [ofJson_eq_ok_iff.mpr he]
    exact heading_eq_ok_iff.mpr hh

theorem heading?_eq_some_iff : heading? v = some h ↔ StandsFor v h := by
  rw [← read_eq_ok_iff, heading?]
  cases read v <;> simp [Except.toOption]

theorem slugOr_eq_name (slug : Option String) (text : String) :
    slugOr slug text = SectionRecord.name ⟨text, slug, none, none, []⟩ := rfl

theorem StandsFor.slug (h : StandsFor v g) : g.slug ≠ "" ∧ Text.strip g.slug = g.slug := by
  obtain ⟨e, -, hne, rfl⟩ := h
  refine ⟨hne, ?_⟩
  rw [slugOr_eq_name]
  exact SectionRecord.strip_name _

end Manuscript.Record.Entry
