import Mathlib.Data.List.TakeWhile
import Manuscript.Heading.Extract
import Manuscript.Proofs.Pattern.Search
import Manuscript.Proofs.Text.Span

/-! Sectioning commands as they are written: a backslash, a name, an asterisk or none, and a text in
braces on one line. Main statements: the reader of commands reads the written ones and no others, and so
does a pattern. -/
namespace Manuscript.Heading

inductive Command.Name
  | top
  | sub
  | subsub
  deriving DecidableEq, Repr, Inhabited

def Command.Name.word : Command.Name → String
  | top => "section"
  | sub => "subsection"
  | subsub => "subsubsection"

def Command.Name.text (name : Command.Name) : List Char := name.word.toList

def Command.Name.level : Command.Name → UInt32
  | top => 1
  | sub => 2
  | subsub => 3

structure Command where
  name : Command.Name
  starred : Bool
  text : List Char
  deriving DecidableEq, Repr, Inhabited

namespace Command

open Pattern

def star (starred : Bool) : List Char := if starred then ['*'] else []

def written (c : Command) : List Char :=
  '\\' :: (c.name.text ++ (star c.starred ++ '{' :: (c.text ++ ['}'])))

def isBraced (c : Char) : Bool := c != '}' && c != '\n'

structure Valid (c : Command) : Prop where
  ne : c.text ≠ []
  braced : ∀ d ∈ c.text, isBraced d = true

def found (c : Command) : Found := ⟨c.name.level, Text.trim c.text⟩

structure At (text : List Char) (n : Nat) (c : Command) : Prop where
  valid : c.Valid
  stands : ∃ before rest, text = before ++ (c.written ++ rest) ∧ before.length = n

variable {c c' : Command} {s r text rest rest' : List Char} {level : UInt32}
variable {fresh : Bool} {w : Way}

/-! Read without a pattern. -/

theorem after?_eq_some_iff {word : List Char} : after? word s = some r ↔ s = word ++ r := by
  rw [after?]
  constructor
  · intro h
    split at h
    · next hp =>
      obtain ⟨t, rfl⟩ := List.isPrefixOf_iff_prefix.mp hp
      rw [← Option.some.inj h, List.drop_left]
    · cases h
  · rintro rfl
    rw [if_pos (List.isPrefixOf_iff_prefix.mpr (List.prefix_append word r)), List.drop_left]

theorem after?_append (word r : List Char) : after? word (word ++ r) = some r :=
  after?_eq_some_iff.mpr rfl

theorem commandName?_text (name : Name) (r : List Char) :
    commandName? (name.text ++ r) = some (name.level, r) := by
  cases name with
  | top =>
    have htop : after? "section".toList ("section".toList ++ r) = some r := after?_append _ r
    simp only [commandName?, Name.text, Name.word, Name.level, htop]
  | sub =>
    have htop : after? "section".toList ("subsection".toList ++ r) = none := by simp [after?]
    have hsub : after? "subsection".toList ("subsection".toList ++ r) = some r := after?_append _ r
    simp only [commandName?, Name.text, Name.word, Name.level, htop, hsub]
  | subsub =>
    have htop : after? "section".toList ("subsubsection".toList ++ r) = none := by simp [after?]
    have hsub : after? "subsection".toList ("subsubsection".toList ++ r) = none := by
      simp [after?]
    have hsubsub : after? "subsubsection".toList ("subsubsection".toList ++ r) = some r :=
      after?_append _ r
    simp only [commandName?, Name.text, Name.word, Name.level, htop, hsub, hsubsub, Option.map_some]

theorem commandName?_eq_some_iff : commandName? s = some (level, r) ↔
    ∃ name : Name, s = name.text ++ r ∧ level = name.level := by
  constructor
  · intro h
    rw [commandName?] at h
    split at h
    · next r' hr =>
      obtain ⟨rfl, rfl⟩ := Prod.mk.inj (Option.some.inj h)
      exact ⟨.top, after?_eq_some_iff.mp hr, rfl⟩
    · split at h
      · next r' hr =>
        obtain ⟨rfl, rfl⟩ := Prod.mk.inj (Option.some.inj h)
        exact ⟨.sub, after?_eq_some_iff.mp hr, rfl⟩
      · obtain ⟨r', hr, heq⟩ := Option.map_eq_some_iff.mp h
        obtain ⟨rfl, rfl⟩ := Prod.mk.inj heq
        exact ⟨.subsub, after?_eq_some_iff.mp hr, rfl⟩
  · rintro ⟨name, rfl, rfl⟩
    exact commandName?_text name r

theorem written_append (c : Command) (rest : List Char) : c.written ++ rest =
    '\\' :: (c.name.text ++ (star c.starred ++ '{' :: (c.text ++ '}' :: rest))) := by
  simp [written]

theorem command?_eq_of_name (h : commandName? s = some (level, r)) : command? s =
    match (match r with
      | '*' :: r => r
      | _ => r) with
    | '{' :: r =>
      match r.takeWhile isBraced, r.dropWhile isBraced with
      | d :: text, '}' :: rest => some (level, d :: text, rest)
      | _, _ => none
    | _ => none := by
  rw [command?, h]
  rfl

theorem exists_star (h : (match r with
    | '*' :: r => r
    | _ => r) = '{' :: s) : ∃ starred, r = star starred ++ '{' :: s := by
  split at h
  · exact ⟨true, congrArg _ h⟩
  · exact ⟨false, h⟩

theorem span_braced (hc : c.Valid) (rest : List Char) :
    (c.text ++ '}' :: rest).takeWhile isBraced = c.text ∧
      (c.text ++ '}' :: rest).dropWhile isBraced = '}' :: rest :=
  Text.span_append hc.braced (by simp [isBraced])

theorem command?_eq_some_iff : command? s = some (level, text, rest) ↔
    ∃ c : Command, c.Valid ∧ '\\' :: s = c.written ++ rest ∧ level = c.name.level ∧
      text = c.text := by
  constructor
  · intro h
    cases hname : commandName? s with
    | none =>
      rw [command?, hname] at h
      cases h
    | some found =>
      obtain ⟨level', r⟩ := found
      obtain ⟨name, rfl, rfl⟩ := commandName?_eq_some_iff.mp hname
      rw [command?_eq_of_name hname] at h
      split at h
      · next r' hopen =>
        obtain ⟨starred, rfl⟩ := exists_star hopen
        split at h
        · next d inner rest' htake hdrop =>
          obtain ⟨rfl, rfl, rfl⟩ : name.level = level ∧ d :: inner = text ∧ rest' = rest := by
            simpa using h
          refine ⟨⟨name, starred, d :: inner⟩, ⟨List.cons_ne_nil _ _, ?_⟩, ?_, rfl, rfl⟩
          · rw [← htake]
            exact fun e he => List.mem_takeWhile_imp he
          · rw [written_append, ← hdrop, ← htake, List.takeWhile_append_dropWhile]
        · cases h
      · cases h
  · rintro ⟨c, hc, hs, rfl, rfl⟩
    rw [written_append] at hs
    obtain rfl := (List.cons.inj hs).2
    obtain ⟨d, inner, htext⟩ := List.exists_cons_of_ne_nil hc.ne
    obtain ⟨htake, hdrop⟩ := span_braced hc rest
    rw [htext, List.cons_append] at htake hdrop
    rw [command?_eq_of_name (commandName?_text c.name _)]
    cases hstar : c.starred <;> simp [star, htake, hdrop, htext]

theorem commands_written (hc : c.Valid) (rest : List Char) :
    commands (c.written ++ rest) = (c.name.level, c.text) :: commands rest := by
  have hread := command?_eq_some_iff.mpr ⟨c, hc, (written_append c rest).symm, rfl, rfl⟩
  rw [written_append, commands, if_pos rfl]
  split
  · next level text rest' heq =>
    cases hread.symm.trans heq
    rfl
  · next heq => cases hread.symm.trans heq

theorem commands_of_none {d : Char} (h : d = '\\' → command? s = none) :
    commands (d :: s) = commands s := by
  rw [commands]
  split
  · next hd =>
    split
    · next heq => cases (h hd).symm.trans heq
    · rfl
  · rfl

theorem level_injective {name name' : Name} (h : name.level = name'.level) : name = name' := by
  cases name <;> cases name' <;> first | rfl | exact absurd h (by decide)

theorem star_append_inj {starred starred' : Bool} (h : star starred ++ '{' :: s =
    star starred' ++ '{' :: r) : starred = starred' ∧ s = r := by
  cases starred with
  | false =>
    cases starred' with
    | false => exact ⟨rfl, (List.cons.inj h).2⟩
    | true => exact absurd (List.cons.inj h).1 (by decide)
  | true =>
    cases starred' with
    | false => exact absurd (List.cons.inj h).1 (by decide)
    | true => exact ⟨rfl, (List.cons.inj (List.cons.inj h).2).2⟩

theorem written_append_inj (hc : c.Valid) (hc' : c'.Valid)
    (h : c.written ++ rest = c'.written ++ rest') : c = c' ∧ rest = rest' := by
  rw [written_append, written_append] at h
  have hbehind := (List.cons.inj h).2
  have hread := (commandName?_text c.name _).symm.trans
    ((congrArg commandName? hbehind).trans (commandName?_text c'.name _))
  obtain ⟨hlevel, hbehind⟩ := Prod.mk.inj (Option.some.inj hread)
  obtain ⟨hstarred, hbehind⟩ := star_append_inj hbehind
  obtain ⟨htake, hdrop⟩ := span_braced hc rest
  obtain ⟨htake', hdrop'⟩ := span_braced hc' rest'
  rw [hbehind, htake'] at htake
  rw [hbehind, hdrop'] at hdrop
  refine ⟨?_, (List.cons.inj hdrop).2.symm⟩
  cases c
  cases c'
  cases level_injective hlevel
  cases hstarred
  cases htake
  rfl

theorem At.eq {n : Nat} (h : c.At s n) (h' : c'.At s n) : c = c' := by
  obtain ⟨before, rest, hs, hn⟩ := h.stands
  obtain ⟨before', rest', hs', hn'⟩ := h'.stands
  obtain ⟨-, hwritten⟩ := List.append_inj (hs.symm.trans hs') (hn.trans hn'.symm)
  exact (written_append_inj h.valid h'.valid hwritten).1

/-! Read by a pattern. -/

def namePattern : Pattern :=
  .seq (.optional (.seq (.literal "sub".toList) (.optional (.literal "sub".toList))))
    (.literal "section".toList)

def pattern : Pattern :=
  .seq (.char '\\') (.seq (.group 1 namePattern) (.seq (.optional (.char '*'))
    (.seq (.char '{') (.seq (.group 2 (.oneOrMore true isBraced)) (.char '}')))))

theorem mem_ways_namePattern : w ∈ namePattern.ways fresh s ↔
    ∃ (name : Name) (r : List Char), s = name.text ++ r ∧ w = ⟨name.text, r, []⟩ := by
  constructor
  · intro hw
    obtain ⟨_, _, _, _, r, _, hsubs, hsection, rfl⟩ := mem_ways_seq.mp hw
    obtain ⟨_, rfl, ⟨⟩⟩ := mem_ways_literal.mp hsection
    rcases mem_ways_optional.mp hsubs with hsubs | hnone
    · obtain ⟨_, _, _, _, _, _, hfirst, hmore, hboth⟩ := mem_ways_seq.mp hsubs
      obtain ⟨rfl, rfl, rfl⟩ := Way.mk.inj hboth
      obtain ⟨_, rfl, ⟨⟩⟩ := mem_ways_literal.mp hfirst
      rcases mem_ways_optional.mp hmore with hsecond | hnone
      · obtain ⟨_, rfl, ⟨⟩⟩ := mem_ways_literal.mp hsecond
        exact ⟨.subsub, r, by simp [Name.text, Name.word], by simp [Name.text, Name.word]⟩
      · obtain ⟨rfl, rfl, rfl⟩ := Way.mk.inj hnone
        exact ⟨.sub, r, by simp [Name.text, Name.word], by simp [Name.text, Name.word]⟩
    · obtain ⟨rfl, rfl, rfl⟩ := Way.mk.inj hnone
      exact ⟨.top, r, rfl, rfl⟩
  · rintro ⟨name, r, rfl, rfl⟩
    cases name with
    | top => simp [namePattern, Name.text, Name.word]
    | sub => simp [namePattern, Name.text, Name.word]
    | subsub => simp [namePattern, Name.text, Name.word]

theorem mem_ways_star : w ∈ (optional (char '*')).ways fresh s ↔
    ∃ (starred : Bool) (r : List Char), s = star starred ++ r ∧ w = ⟨star starred, r, []⟩ := by
  rw [mem_ways_optional, mem_ways_char]
  constructor
  · rintro (⟨r, rfl, rfl⟩ | rfl)
    · exact ⟨true, r, rfl, rfl⟩
    · exact ⟨false, s, rfl, rfl⟩
  · rintro ⟨starred, r, rfl, rfl⟩
    cases starred with
    | false => exact .inr rfl
    | true => exact .inl ⟨r, rfl, rfl⟩

theorem mem_ways_pattern : w ∈ pattern.ways fresh s ↔ ∃ (c : Command) (rest : List Char), c.Valid ∧
    s = c.written ++ rest ∧ w = ⟨c.written, rest, [(1, c.name.text), (2, c.text)]⟩ := by
  constructor
  · intro hw
    obtain ⟨_, _, _, _, rest, _, hslash, hw₁, rfl⟩ := mem_ways_seq.mp hw
    obtain ⟨_, rfl, ⟨⟩⟩ := mem_ways_char.mp hslash
    obtain ⟨_, _, _, _, _, _, hname, hw₂, ⟨⟩⟩ := mem_ways_seq.mp hw₁
    obtain ⟨_, _, _, hword, ⟨⟩⟩ := mem_ways_group.mp hname
    obtain ⟨name, _, rfl, ⟨⟩⟩ := mem_ways_namePattern.mp hword
    obtain ⟨_, _, _, _, _, _, hstar, hw₃, ⟨⟩⟩ := mem_ways_seq.mp hw₂
    obtain ⟨starred, _, rfl, ⟨⟩⟩ := mem_ways_star.mp hstar
    obtain ⟨_, _, _, _, _, _, hopen, hw₄, ⟨⟩⟩ := mem_ways_seq.mp hw₃
    obtain ⟨_, rfl, ⟨⟩⟩ := mem_ways_char.mp hopen
    obtain ⟨text, _, _, _, _, _, hinner, hclose, ⟨⟩⟩ := mem_ways_seq.mp hw₄
    obtain ⟨_, _, _, htext, ⟨⟩⟩ := mem_ways_group.mp hinner
    obtain ⟨_, _, rfl, hne, hbraced, ⟨⟩⟩ := mem_ways_oneOrMore.mp htext
    obtain ⟨_, rfl, ⟨⟩⟩ := mem_ways_char.mp hclose
    exact ⟨⟨name, starred, text⟩, rest, ⟨hne, hbraced⟩, by rw [written_append], rfl⟩
  · rintro ⟨c, rest, hc, rfl, rfl⟩
    rw [written_append]
    refine mem_ways_seq.mpr ⟨_, _, _, _, _, _, mem_ways_char.mpr ⟨_, rfl, rfl⟩, ?_, rfl⟩
    refine mem_ways_seq.mpr ⟨_, _, _, _, _, _, mem_ways_group.mpr ⟨_, _, _,
      mem_ways_namePattern.mpr ⟨c.name, _, rfl, rfl⟩, rfl⟩, ?_, rfl⟩
    refine mem_ways_seq.mpr ⟨_, _, _, _, _, _, mem_ways_star.mpr ⟨c.starred, _, rfl, rfl⟩, ?_, rfl⟩
    refine mem_ways_seq.mpr ⟨_, _, _, _, _, _, mem_ways_char.mpr ⟨_, rfl, rfl⟩, ?_, rfl⟩
    refine mem_ways_seq.mpr ⟨_, _, _, _, _, _, mem_ways_group.mpr ⟨_, _, _,
      mem_ways_oneOrMore.mpr ⟨c.text, _, rfl, hc.ne, hc.braced, rfl⟩, rfl⟩, ?_, rfl⟩
    exact mem_ways_char.mpr ⟨rest, rfl, rfl⟩

theorem inline_pattern : pattern.Inline := by
  have hsub : (literal "sub".toList).Inline := inline_literal (by decide)
  have hsection : (literal "section".toList).Inline := inline_literal (by decide)
  exact ⟨inline_char (by decide), ⟨⟨⟨hsub, hsub, trivial⟩, trivial⟩, hsection⟩,
    ⟨inline_char (by decide), trivial⟩, inline_char (by decide), ⟨rfl, rfl⟩,
    inline_char (by decide)⟩

theorem takesSome_pattern : pattern.TakesSome := by
  intro fresh s w hw
  obtain ⟨c, rest, -, -, rfl⟩ := mem_ways_pattern.mp hw
  exact List.cons_ne_nil _ _

end Command
end Manuscript.Heading
