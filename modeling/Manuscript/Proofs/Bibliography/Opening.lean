import Mathlib.Data.List.TakeWhile
import Manuscript.Bibliography.Bibitem
import Manuscript.Proofs.Pattern.Search
import Manuscript.Proofs.Text.Span

/-! Openings of bibliography entries as they are written: `\bibitem`, a label in brackets or none, and a
key in braces. Main statements: the reader of entries reads the written openings and no others, and so
does a pattern. -/
namespace Manuscript.Bibliography

structure Opening where
  label : Option (List Char)
  key : List Char
  deriving DecidableEq, Repr, Inhabited

namespace Opening

open Pattern

def word : List Char := "bibitem".toList

def bracketed : Option (List Char) → List Char
  | none => []
  | some label => '[' :: (label ++ [']'])

def written (o : Opening) : List Char :=
  '\\' :: (word ++ (bracketed o.label ++ '{' :: (o.key ++ ['}'])))

def isLabel (c : Char) : Bool := c != ']' && c != '\n'

def isKey (c : Char) : Bool := c != '}' && c != '\n'

def IsLabel (label : Option (List Char)) : Prop := ∀ l ∈ label, ∀ c ∈ l, isLabel c = true

structure Valid (o : Opening) : Prop where
  label : IsLabel o.label
  key : ∀ c ∈ o.key, isKey c = true

variable {o : Opening} {label : Option (List Char)} {s r key rest : List Char}
variable {fresh : Bool} {w : Way}

theorem written_append (o : Opening) (rest : List Char) : o.written ++ rest =
    '\\' :: (word ++ (bracketed o.label ++ '{' :: (o.key ++ '}' :: rest))) := by
  simp [written]

/-! Read without a pattern. -/

theorem afterLabel_bracket (r : List Char) : afterLabel ('[' :: r) =
    match r.dropWhile isLabel with
    | ']' :: rest => rest
    | _ => '[' :: r := rfl

theorem item?_word (s : List Char) : item? (word ++ s) =
    match afterLabel s with
    | '{' :: r =>
      match r.dropWhile isKey with
      | '}' :: rest => some (r.takeWhile isKey, rest)
      | _ => none
    | _ => none := rfl

theorem afterLabel_bracketed (hlabel : IsLabel label) (r : List Char) :
    afterLabel (bracketed label ++ '{' :: r) = '{' :: r := by
  cases label with
  | none => rfl
  | some l =>
    have hopen : bracketed (some l) ++ '{' :: r = '[' :: (l ++ ']' :: '{' :: r) := by
      simp [bracketed]
    have hdrop : (l ++ ']' :: '{' :: r).dropWhile isLabel = ']' :: '{' :: r :=
      (Text.span_append (hlabel l rfl) (by simp [isLabel])).2
    rw [hopen, afterLabel_bracket, hdrop]
    rfl

theorem exists_of_afterLabel (h : afterLabel s = '{' :: r) :
    ∃ label, IsLabel label ∧ s = bracketed label ++ '{' :: r := by
  cases s with
  | nil => exact ⟨none, nofun, h⟩
  | cons c t =>
    by_cases hc : c = '['
    · subst hc
      rw [afterLabel_bracket] at h
      split at h
      · next rest hdrop =>
        subst h
        have hsplit := List.takeWhile_append_dropWhile (p := isLabel) (l := t)
        rw [hdrop] at hsplit
        refine ⟨some (t.takeWhile isLabel), ?_, by simp [bracketed, hsplit]⟩
        rintro l ⟨⟩ d hd
        exact List.mem_takeWhile_imp hd
      · cases h
    · have hself : afterLabel (c :: t) = c :: t := by simp [afterLabel, hc]
      rw [hself] at h
      exact ⟨none, nofun, h⟩

theorem item?_eq_some_iff : item? s = some (key, rest) ↔
    ∃ o : Opening, o.Valid ∧ '\\' :: s = o.written ++ rest ∧ key = o.key := by
  constructor
  · intro h
    have hword : "bibitem".toList.isPrefixOf s = true := by
      by_contra hno
      rw [item?, if_neg hno] at h
      cases h
    obtain ⟨t, rfl⟩ : ∃ t, word ++ t = s := List.isPrefixOf_iff_prefix.mp hword
    rw [item?_word] at h
    split at h
    · next r hopen =>
      obtain ⟨label, hlabel, rfl⟩ := exists_of_afterLabel hopen
      split at h
      · next rest' hdrop =>
        obtain ⟨rfl, rfl⟩ := Prod.mk.inj (Option.some.inj h)
        have hsplit := List.takeWhile_append_dropWhile (p := isKey) (l := r)
        refine ⟨⟨label, r.takeWhile isKey⟩, ⟨hlabel, fun c hc => List.mem_takeWhile_imp hc⟩, ?_,
          rfl⟩
        rw [written_append, ← hdrop, hsplit]
      · cases h
    · cases h
  · rintro ⟨o, ho, hs, rfl⟩
    rw [written_append] at hs
    obtain rfl := (List.cons.inj hs).2
    have hclose : ∀ c ∈ ('}' :: rest).head?, isKey c = false := by simp [isKey]
    obtain ⟨htake, hdrop⟩ := Text.span_append ho.key hclose
    rw [item?_word, afterLabel_bracketed ho.label]
    simp only [hdrop, htake]

theorem items_written (ho : o.Valid) (rest : List Char) :
    items (o.written ++ rest) = ([], (o.key, (items rest).1) :: (items rest).2) := by
  have hread := item?_eq_some_iff.mpr ⟨o, ho, (written_append o rest).symm, rfl⟩
  rw [written_append, items]
  split
  · next key rest' heq =>
    rw [if_pos rfl] at heq
    cases hread.symm.trans heq
    rfl
  · next heq =>
    rw [if_pos rfl] at heq
    cases hread.symm.trans heq

theorem items_of_none {c : Char} (h : c = '\\' → item? s = none) :
    items (c :: s) = (c :: (items s).1, (items s).2) := by
  have hnone : (if c = '\\' then item? s else none) = none := by
    split
    · next hc => exact h hc
    · rfl
  rw [items]
  split
  · next heq => cases hnone.symm.trans heq
  · rfl

/-! Read by a pattern. -/

def labelPattern : Pattern :=
  .optional (.seq (.char '[') (.seq (.many true isLabel) (.char ']')))

def pattern : Pattern :=
  .seq (.literal ('\\' :: word)) (.seq labelPattern (.seq (.char '{')
    (.seq (.group 1 (.many true isKey)) (.char '}'))))

theorem mem_ways_labelPattern : w ∈ labelPattern.ways fresh s ↔
    ∃ label r, IsLabel label ∧ s = bracketed label ++ r ∧ w = ⟨bracketed label, r, []⟩ := by
  rw [labelPattern, mem_ways_optional]
  constructor
  · rintro (hw | rfl)
    · obtain ⟨_, _, _, _, r, _, hopen, hw₁, rfl⟩ := mem_ways_seq.mp hw
      obtain ⟨_, rfl, ⟨⟩⟩ := mem_ways_char.mp hopen
      obtain ⟨l, _, _, _, _, _, hinner, hclose, ⟨⟩⟩ := mem_ways_seq.mp hw₁
      obtain ⟨_, _, rfl, hlabel, ⟨⟩⟩ := mem_ways_many.mp hinner
      obtain ⟨_, rfl, ⟨⟩⟩ := mem_ways_char.mp hclose
      refine ⟨some l, r, ?_, by simp [bracketed], rfl⟩
      rintro _ ⟨⟩
      exact hlabel
    · exact ⟨none, s, nofun, rfl, rfl⟩
  · rintro ⟨label, r, hlabel, rfl, rfl⟩
    cases label with
    | none => exact .inr rfl
    | some l =>
      have hopen : bracketed (some l) ++ r = '[' :: (l ++ ']' :: r) := by simp [bracketed]
      rw [hopen]
      refine .inl (mem_ways_seq.mpr ⟨_, _, _, _, _, _, mem_ways_char.mpr ⟨_, rfl, rfl⟩, ?_, rfl⟩)
      exact mem_ways_seq.mpr ⟨_, _, _, _, _, _, mem_ways_many.mpr ⟨l, _, rfl, hlabel l rfl, rfl⟩,
        mem_ways_char.mpr ⟨r, rfl, rfl⟩, rfl⟩

theorem mem_ways_pattern : w ∈ pattern.ways fresh s ↔ ∃ (o : Opening) (rest : List Char), o.Valid ∧
    s = o.written ++ rest ∧ w = ⟨o.written, rest, [(1, o.key)]⟩ := by
  constructor
  · intro hw
    obtain ⟨_, _, _, _, rest, _, hword, hw₁, rfl⟩ := mem_ways_seq.mp hw
    obtain ⟨_, rfl, ⟨⟩⟩ := mem_ways_literal.mp hword
    obtain ⟨_, _, _, _, _, _, hlabel, hw₂, ⟨⟩⟩ := mem_ways_seq.mp hw₁
    obtain ⟨label, _, hvalid, rfl, ⟨⟩⟩ := mem_ways_labelPattern.mp hlabel
    obtain ⟨_, _, _, _, _, _, hopen, hw₃, ⟨⟩⟩ := mem_ways_seq.mp hw₂
    obtain ⟨_, rfl, ⟨⟩⟩ := mem_ways_char.mp hopen
    obtain ⟨key, _, _, _, _, _, hinner, hclose, ⟨⟩⟩ := mem_ways_seq.mp hw₃
    obtain ⟨_, _, _, hkey, ⟨⟩⟩ := mem_ways_group.mp hinner
    obtain ⟨_, _, rfl, hbraced, ⟨⟩⟩ := mem_ways_many.mp hkey
    obtain ⟨_, rfl, ⟨⟩⟩ := mem_ways_char.mp hclose
    exact ⟨⟨label, key⟩, rest, ⟨hvalid, hbraced⟩, by simp [written], rfl⟩
  · rintro ⟨o, rest, ho, rfl, rfl⟩
    rw [written_append]
    refine mem_ways_seq.mpr ⟨_, _, _, _, _, _, mem_ways_literal.mpr ⟨_, rfl, rfl⟩, ?_, rfl⟩
    refine mem_ways_seq.mpr ⟨_, _, _, _, _, _,
      mem_ways_labelPattern.mpr ⟨o.label, _, ho.label, rfl, rfl⟩, ?_, rfl⟩
    refine mem_ways_seq.mpr ⟨_, _, _, _, _, _, mem_ways_char.mpr ⟨_, rfl, rfl⟩, ?_, rfl⟩
    refine mem_ways_seq.mpr ⟨_, _, _, _, _, _, mem_ways_group.mpr ⟨_, _, _,
      mem_ways_many.mpr ⟨o.key, _, rfl, ho.key, rfl⟩, rfl⟩, ?_, rfl⟩
    exact mem_ways_char.mpr ⟨rest, rfl, rfl⟩

theorem takesSome_pattern : pattern.TakesSome := by
  intro fresh s w hw
  obtain ⟨o, rest, -, -, rfl⟩ := mem_ways_pattern.mp hw
  exact List.cons_ne_nil _ _

end Opening
end Manuscript.Bibliography
