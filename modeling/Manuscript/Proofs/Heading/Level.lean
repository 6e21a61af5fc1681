import Manuscript.Proofs.Heading.Derived
import Manuscript.Proofs.Record.Entry

/-! Levels. What a text has to be to denote a level is a relation of its own, and reading takes just
these texts. So a number is read back from its digits, and a level that a section's record holds as a
number, which its blocks carry as text, comes to the same heading as in an entry. -/
namespace Manuscript

namespace Text

variable {s : List Char} {n : Nat}

theorem natural?_eq_some_iff :
    natural? s = some n ↔ s ≠ [] ∧ s.all isDigit = true ∧ digitsFrom 0 s = n := by
  unfold natural?
  split
  · next h => simp [h.1, h.2]
  · next h =>
    refine iff_of_false (by simp) ?_
    rintro ⟨hne, hdigits, -⟩
    exact h ⟨hne, hdigits⟩

theorem not_isBlank_of_isDigit {c : Char} (h : isDigit c = true) : isBlank c = false := by
  simp only [isDigit, Bool.and_eq_true, decide_eq_true_eq] at h
  simp only [isBlank, Bool.or_eq_false_iff, Bool.and_eq_false_iff, decide_eq_false_iff_not,
    beq_eq_false_iff_ne]
  omega

end Text

namespace Level

open Text (isDigit digits decimal digitsFrom natural?)

variable {s : List Char} {n : UInt32}

def names : List (String × UInt32) :=
  [("chapter", 1), ("section", 1), ("subsection", 2), ("subsubsection", 3)]

def marks : List (List Char) := [[], ['h'], ['H']]

def signs : List (List Char) := [[], ['+']]

def IsNumeral (n : UInt32) (s : List Char) : Prop :=
  s ≠ [] ∧ s.all isDigit = true ∧ digitsFrom 0 s = n.toNat

/-- A text without blanks around it that denotes a level. -/
inductive Denotes (n : UInt32) : List Char → Prop
  | name {command : String} : (command, n) ∈ names → Denotes n command.toList
  | number {mark sign numeral : List Char} : mark ∈ marks → sign ∈ signs → IsNumeral n numeral →
      Denotes n (mark ++ sign ++ numeral)

theorem isNumeral_digits (n : UInt32) : IsNumeral n (digits n.toNat) :=
  Text.natural?_eq_some_iff.mp (Text.natural?_digits n.toNat)

theorem IsNumeral.isDigit_head (h : IsNumeral n s) : ∀ c ∈ s.head?, isDigit c = true :=
  fun c hc => List.all_eq_true.mp h.2.1 c (List.mem_of_mem_head? hc)

/-! Numbers, behind a sign and a mark. -/

def ofNat? (m : Nat) : Option UInt32 := if m < UInt32.size then some (UInt32.ofNat m) else none

def unsigned : List Char → List Char
  | '+' :: s => s
  | s => s

theorem ofNat?_eq_some_iff {m : Nat} : ofNat? m = some n ↔ m = n.toNat := by
  unfold ofNat?
  split
  · next hm => rw [Option.some.injEq, ← UInt32.toNat_inj, UInt32.toNat_ofNat_of_lt' hm]
  · next hm =>
    refine iff_of_false (by simp) ?_
    rintro rfl
    exact hm n.toNat_lt

theorem unsigned_eq_self (h : ∀ r, s ≠ '+' :: r) : unsigned s = s := by
  unfold unsigned
  split
  · exact absurd rfl (h _)
  · rfl

theorem number?_eq (s : List Char) : number? s = (natural? (unsigned s)).bind ofNat? := by
  unfold number?
  split
  · next r => cases hr : natural? r <;> simp [unsigned, hr, ofNat?]
  · next hsign =>
    rw [unsigned_eq_self hsign]
    cases hs : natural? s <;> simp [hs, ofNat?]

theorem number?_eq_some_iff : number? s = some n ↔ IsNumeral n (unsigned s) := by
  simp only [number?_eq, Option.bind_eq_some_iff, ofNat?_eq_some_iff, exists_eq_right,
    Text.natural?_eq_some_iff, IsNumeral]

theorem exists_sign (s : List Char) : ∃ sign ∈ signs, s = sign ++ unsigned s := by
  unfold unsigned
  split
  · exact ⟨['+'], by simp [signs], rfl⟩
  · exact ⟨[], by simp [signs], rfl⟩

theorem unsigned_append {sign : List Char} (hsign : sign ∈ signs) (hs : IsNumeral n s) :
    unsigned (sign ++ s) = s := by
  simp only [signs, List.mem_cons, List.not_mem_nil, or_false] at hsign
  rcases hsign with rfl | rfl
  · apply unsigned_eq_self
    rintro r rfl
    exact absurd (hs.isDigit_head '+' rfl) (by decide)
  · rfl

theorem exists_mark (s : List Char) : ∃ mark ∈ marks, s = mark ++ withoutMark s := by
  cases s with
  | nil => exact ⟨[], by simp [marks], rfl⟩
  | cons c s =>
    simp only [withoutMark]
    split
    · next hc =>
      rcases hc with rfl | rfl
      · exact ⟨['h'], by simp [marks], rfl⟩
      · exact ⟨['H'], by simp [marks], rfl⟩
    · exact ⟨[], by simp [marks], rfl⟩

theorem withoutMark_append {mark : List Char} (hmark : mark ∈ marks)
    (hs : ∀ c ∈ s.head?, c ≠ 'h' ∧ c ≠ 'H') : withoutMark (mark ++ s) = s := by
  simp only [marks, List.mem_cons, List.not_mem_nil, or_false] at hmark
  rcases hmark with rfl | rfl | rfl
  · cases s with
    | nil => rfl
    | cons c s =>
      obtain ⟨hlower, hupper⟩ := hs c rfl
      simp [withoutMark, hlower, hupper]
  · rfl
  · rfl

theorem unmarked_head {sign : List Char} (hsign : sign ∈ signs) (hs : IsNumeral n s) :
    ∀ c ∈ (sign ++ s).head?, c ≠ 'h' ∧ c ≠ 'H' := by
  simp only [signs, List.mem_cons, List.not_mem_nil, or_false] at hsign
  intro c hc
  rcases hsign with rfl | rfl
  · have hdigit := hs.isDigit_head c hc
    constructor <;> rintro rfl <;> cases hdigit
  · cases hc
    decide

/-! Names. -/

theorem named?_eq_some_iff :
    named? s = some n ↔ ∃ command, (command, n) ∈ names ∧ s = command.toList := by
  simp only [names, List.mem_cons, Prod.mk.injEq, List.not_mem_nil, or_false]
  constructor
  · intro h
    unfold named? at h
    split_ifs at h with hfirst hsecond hthird <;> cases h
    · rcases hfirst with hs | hs
      · exact ⟨"chapter", by simp, hs⟩
      · exact ⟨"section", by simp, hs⟩
    · exact ⟨"subsection", by simp, hsecond⟩
    · exact ⟨"subsubsection", by simp, hthird⟩
  · rintro ⟨command, ⟨rfl, rfl⟩ | ⟨rfl, rfl⟩ | ⟨rfl, rfl⟩ | ⟨rfl, rfl⟩, rfl⟩ <;> decide

theorem number?_name {command : String} (h : (command, n) ∈ names) :
    number? (withoutMark command.toList) = none := by
  simp only [names, List.mem_cons, Prod.mk.injEq, List.not_mem_nil, or_false] at h
  rcases h with ⟨rfl, -⟩ | ⟨rfl, -⟩ | ⟨rfl, -⟩ | ⟨rfl, -⟩ <;> decide

/-- Reading takes the texts that denote a level once the blanks around them are gone. -/
theorem parse?_eq_some_iff {text : String} :
    parse? text = some n ↔ Denotes n (Text.trim text.toList) := by
  generalize hs : Text.trim text.toList = s
  simp only [parse?, hs, Option.or_eq_some_iff]
  constructor
  · rintro (hnumber | ⟨-, hname⟩)
    · obtain ⟨mark, hmark, hsplit⟩ := exists_mark s
      obtain ⟨sign, hsign, hrest⟩ := exists_sign (withoutMark s)
      rw [hsplit, hrest, ← List.append_assoc]
      exact .number hmark hsign (number?_eq_some_iff.mp hnumber)
    · obtain ⟨command, hcommand, rfl⟩ := named?_eq_some_iff.mp hname
      exact .name hcommand
  · intro h
    cases h with
    | name hcommand =>
      exact .inr ⟨number?_name hcommand, named?_eq_some_iff.mpr ⟨_, hcommand, rfl⟩⟩
    | number hmark hsign hnumeral =>
      rw [List.append_assoc, withoutMark_append hmark (unmarked_head hsign hnumeral),
        number?_eq_some_iff, unsigned_append hsign hnumeral]
      exact .inl hnumeral

/-! Numbers written out. -/

theorem Denotes.digits {mark : List Char} (hmark : mark ∈ marks) (n : UInt32) :
    Denotes n (mark ++ digits n.toNat) := by
  have hsign : [] ∈ signs := by simp [signs]
  simpa using Denotes.number hmark hsign (isNumeral_digits n)

theorem not_isBlank_of_mem_mark {mark : List Char} {c : Char} (hmark : mark ∈ marks)
    (hc : c ∈ mark) : Text.isBlank c = false := by
  simp only [marks, List.mem_cons, List.not_mem_nil, or_false] at hmark
  rcases hmark with rfl | rfl | rfl
  · cases hc
  · rw [List.mem_singleton.mp hc]
    decide
  · rw [List.mem_singleton.mp hc]
    decide

theorem trim_digits {mark : List Char} (hmark : mark ∈ marks) (m : Nat) :
    Text.trim (mark ++ digits m) = mark ++ digits m := by
  apply Text.trim_eq_self
  intro c hc
  rcases List.mem_append.mp hc with hc | hc
  · exact not_isBlank_of_mem_mark hmark hc
  · exact Text.not_isBlank_of_isDigit (List.all_eq_true.mp (Text.all_isDigit_digits m) c hc)

theorem parse?_decimal {mark : String} (hmark : mark.toList ∈ marks) (n : UInt32) :
    parse? (mark ++ decimal n.toNat) = some n := by
  rw [parse?_eq_some_iff, String.toList_append, decimal, String.toList_ofList, trim_digits hmark]
  exact .digits hmark n

theorem parse?_shown (level : Record.Level) : parse? level.shown = level.value? := by
  cases level with
  | number n =>
    have hplain : "".toList ∈ marks := by simp [marks]
    rw [Record.Level.shown, ← String.empty_append (s := decimal n.toNat), parse?_decimal hplain]
    rfl
  | text s => rfl

end Level

theorem Record.Entry.Written.unique {item : Json} {e e' : Record.Entry} (h : e.Written item)
    (h' : e'.Written item) : e = e' :=
  Except.ok.inj ((Record.Entry.ofJson_eq_ok_iff.mpr h).symm.trans
    (Record.Entry.ofJson_eq_ok_iff.mpr h'))

/-! Levels of headings. -/
namespace Heading

open Record (Visit walk topRecords SectionContent)
open Record.Entry (Written)

variable {file : String} {b : Block String} {before after : List (Block String)} {content : Content}
variable {r : Record.SectionRecord} {level : Record.Level} {depth : Nat}

theorem ofSection_mem_derive (hblocks : content.get? file = some (before ++ b :: after))
    (hlast : before.getLast?.map Block.sectionId ≠ some b.sectionId) :
    ofSection file b ∈ derive content := by
  apply ofRuns_subset_derive hblocks
  rw [ofRuns_append]
  exact List.mem_append_right _ (mem_ofRuns_of_ne (by simpa [lastSection] using hlast))

theorem level_ofSection (file : String) (hlevel : r.level = some level)
    (hb : b ∈ (Visit.record depth r).blocks) :
    (ofSection file b).level = level.value?.getD 1 := by
  obtain ⟨t, -, rfl⟩ := List.mem_map.mp hb
  simp only [ofSection, Record.SectionRecord.levelAt, hlevel, Level.parse?_shown]

theorem level_of_read {item : Json} {e : Record.Entry} {h : Heading} (hwritten : Written e item)
    (hlevel : e.level = some level) (hread : Record.Entry.read item = .ok h) :
    h.level = level.value?.getD 1 := by
  obtain ⟨e', hwritten', -, rfl⟩ := Record.Entry.read_eq_ok_iff.mp hread
  obtain rfl := hwritten.unique hwritten'
  simp only [hlevel, Option.bind_some]

/-- Writing a level out for the blocks of a section and reading it there is reading it at once, and a
number is read from its digits, also behind an `h`; the texts that denote a level are the names of the
sectioning commands and the numerals of 32 bits. So an entry of a table of contents and a section
record that hold one level give headings of one level: all blocks of the record are of that level, and
it is what a table made from the content has for the record. -/
theorem levels_agree :
    (∀ level : Record.Level, Level.parse? level.shown = level.value?) ∧
    (∀ mark ∈ ["", "h", "H"], ∀ n : UInt32,
      Level.parse? (mark ++ Text.decimal n.toNat) = some n) ∧
    (∀ text n, Level.parse? text = some n ↔ Level.Denotes n (Text.trim text.toList)) ∧
    ∀ (level : Record.Level) (item : Json) (e : Record.Entry) (h : Heading), Written e item →
      e.level = some level → Record.Entry.read item = .ok h →
      ∀ (content : Content) (file : String) (v : Json) (r : Record.SectionRecord) (depth : Nat)
        (before after : List Visit), content.get? file = some (Record.loadSection file v).value →
        walk 0 (topRecords v) = before ++ .record depth r :: after → r.level = some level →
        (∀ b ∈ (Visit.record depth r).blocks, (ofSection file b).level = h.level) ∧
        (r.content.elim [] SectionContent.texts ≠ [] →
          (before.flatMap Visit.blocks).getLast?.map Block.sectionId ≠ some r.name →
          ⟨h.level, r.title, r.name, file⟩ ∈ derive content) := by
  refine ⟨Level.parse?_shown, ?_, fun text n => Level.parse?_eq_some_iff, ?_⟩
  · intro mark hmark n
    have hmarks : ∀ mark ∈ ["", "h", "H"], mark.toList ∈ Level.marks := by decide
    exact Level.parse?_decimal (hmarks mark hmark) n
  · intro level item e h hwritten hentry hread content file v r depth before after hcontent hwalk
      hrecord
    have hlevel : ∀ b ∈ (Visit.record depth r).blocks, (ofSection file b).level = h.level :=
      fun b hb => (level_ofSection file hrecord hb).trans
        (level_of_read hwritten hentry hread).symm
    refine ⟨hlevel, ?_⟩
    intro htexts hlast
    obtain ⟨t, ts, hts⟩ := List.exists_cons_of_ne_nil htexts
    have hblocks : (Visit.record depth r).blocks = ⟨r.name, r.title, r.levelAt depth, t⟩ ::
        ts.map (⟨r.name, r.title, r.levelAt depth, ·⟩) := by
      rw [Visit.blocks, hts, List.map_cons]
    have hmem : ofSection file ⟨r.name, r.title, r.levelAt depth, t⟩ ∈ derive content := by
      rw [Record.value_loadSection, hwalk, List.flatMap_append, List.flatMap_cons, hblocks,
        List.cons_append] at hcontent
      exact ofSection_mem_derive hcontent hlast
    rw [← hlevel ⟨r.name, r.title, r.levelAt depth, t⟩ (by simp [hblocks])]
    exact hmem

theorem levels_agree_largest :
    let level : Record.Level := .number 4294967295
    let item : Json := .object [("file", .string "f"), ("level", level.json), ("text", .string "S")]
    let v : Json := .object [("content", .string "t"), ("level", level.json), ("title", .string "S")]
    let r : Record.SectionRecord := ⟨"S", none, some level, some (.one "t"), []⟩
    let content : Content := .ofList [("f", (Record.loadSection "f" v).value)]
    Level.parse? " H+04294967295" = some 4294967295 ∧ Level.parse? "h4294967296" = none ∧
      Written ⟨"S", none, "f", some level⟩ item ∧
      Record.Entry.read item = .ok ⟨4294967295, "S", "s", "f"⟩ ∧
      content.get? "f" = some (Record.loadSection "f" v).value ∧
      walk 0 (topRecords v) = [] ++ .record 0 r :: [] ∧
      ⟨4294967295, "S", "s", "f"⟩ ∈ derive content := by
  intro level item v r content
  obtain ⟨-, -, hreads, htables⟩ := levels_agree
  have hlong : Level.Denotes 4294967295 (Text.trim " H+04294967295".toList) := by
    have htrim : Text.trim " H+04294967295".toList = ['H'] ++ ['+'] ++ "04294967295".toList := by
      decide
    rw [htrim]
    exact .number (by decide) (by decide) ⟨by decide, by decide, by decide⟩
  have hwritten : Written ⟨"S", none, "f", some level⟩ item :=
    .object rfl (.inl ⟨rfl, rfl⟩) rfl (.inr rfl)
  have hread : Record.Entry.read item = .ok ⟨4294967295, "S", "s", "f"⟩ :=
    Record.Entry.read_eq_ok_iff.mpr ⟨_, hwritten, by decide, by decide +kernel⟩
  have hv : Record.accepted? v = some r :=
    Record.accepted?_eq_some_iff.mpr ⟨rfl, by decide +kernel⟩
  have hwalk : walk 0 (topRecords v) = [] ++ .record 0 r :: [] := by
    simp only [v, topRecords]
    rw [Record.walk_cons_of_accepted hv]
    simp [walk, r]
  have hcontent : content.get? "f" = some (Record.loadSection "f" v).value :=
    (OrderedMap.get?_ofList _ "f").trans (by simp)
  have hname : r.name = "s" := by decide +kernel
  obtain ⟨-, hderived⟩ :=
    htables level item _ _ hwritten rfl hread content "f" v r 0 [] [] hcontent hwalk rfl
  rw [hname] at hderived
  exact ⟨(hreads _ _).mpr hlong, by decide, hwritten, hread, hcontent, hwalk,
    hderived (by simp [r, SectionContent.texts]) (by simp)⟩

end Heading
end Manuscript
