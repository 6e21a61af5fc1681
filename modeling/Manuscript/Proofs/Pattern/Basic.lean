import Mathlib.Data.List.Basic

/-! Patterns of text, matched by backtracking. At a place of a text a pattern may match in several ways,
which are tried in a fixed order. Main statements: what a way to match takes and leaves, and that a
pattern which takes no line feed sees nothing of a text but the line that it begins on. -/
namespace Manuscript

inductive Pattern
  | empty
  | one (p : Char → Bool)
  | many (greedy : Bool) (p : Char → Bool)
  | lineStart
  | lineEnd
  | seq (a b : Pattern)
  | orElse (a b : Pattern)
  | group (n : Nat) (a : Pattern)

namespace Pattern

/-- A way to match: the characters taken, what they leave, and the texts of the groups. -/
structure Way where
  taken : List Char
  rest : List Char
  groups : List (Nat × List Char)

def Way.andThen (v w : Way) : Way := ⟨v.taken ++ w.taken, w.rest, v.groups ++ w.groups⟩

def Way.followedBy (more : List Char) (w : Way) : Way := { w with rest := w.rest ++ more }

/-- Whether a line starts behind the characters taken; `fresh` tells whether one starts before them. -/
def freshAfter (fresh : Bool) (taken : List Char) : Bool :=
  match taken.getLast? with
  | none => fresh
  | some c => c == '\n'

def manyWays (greedy : Bool) (p : Char → Bool) : List Char → List Way
  | [] => [⟨[], [], []⟩]
  | c :: s =>
    let more :=
      if p c then (manyWays greedy p s).map fun w => { w with taken := c :: w.taken } else []
    if greedy then more ++ [⟨[], c :: s, []⟩] else ⟨[], c :: s, []⟩ :: more

/-- All ways to match at the start of a text, in the order in which they are tried. -/
def ways : Pattern → Bool → List Char → List Way
  | empty, _, s => [⟨[], s, []⟩]
  | one _, _, [] => []
  | one p, _, c :: s => if p c then [⟨[c], s, []⟩] else []
  | many greedy p, _, s => manyWays greedy p s
  | lineStart, fresh, s => if fresh then [⟨[], s, []⟩] else []
  | lineEnd, _, s => if s.head?.all (· == '\n') then [⟨[], s, []⟩] else []
  | seq a b, fresh, s => (a.ways fresh s).flatMap fun v =>
    (b.ways (freshAfter fresh v.taken) v.rest).map v.andThen
  | orElse a b, fresh, s => a.ways fresh s ++ b.ways fresh s
  | group n a, fresh, s => (a.ways fresh s).map fun w =>
    { w with groups := (n, w.taken) :: w.groups }

def optional (a : Pattern) : Pattern := orElse a empty

def oneOrMore (greedy : Bool) (p : Char → Bool) : Pattern := seq (one p) (many greedy p)

def char (c : Char) : Pattern := one (· == c)

def literal (word : List Char) : Pattern := word.foldr (fun c p => seq (char c) p) empty

variable {a b : Pattern} {p : Char → Bool} {greedy fresh : Bool} {s r t : List Char} {v w : Way}

/-! Ways of each kind of pattern. -/

theorem ways_lineStart : lineStart.ways fresh s = if fresh then [⟨[], s, []⟩] else [] := rfl

theorem ways_lineEnd :
    lineEnd.ways fresh s = if s.head?.all (· == '\n') then [⟨[], s, []⟩] else [] := rfl

theorem ways_one_cons (p : Char → Bool) (fresh : Bool) (c : Char) (s : List Char) :
    (one p).ways fresh (c :: s) = if p c then [⟨[c], s, []⟩] else [] := rfl

theorem ways_seq (a b : Pattern) (fresh : Bool) (s : List Char) : (seq a b).ways fresh s =
    (a.ways fresh s).flatMap fun v =>
      (b.ways (freshAfter fresh v.taken) v.rest).map v.andThen := rfl

theorem ways_orElse (a b : Pattern) (fresh : Bool) (s : List Char) :
    (orElse a b).ways fresh s = a.ways fresh s ++ b.ways fresh s := rfl

theorem ways_group (n : Nat) (a : Pattern) (fresh : Bool) (s : List Char) :
    (group n a).ways fresh s =
      (a.ways fresh s).map fun w => { w with groups := (n, w.taken) :: w.groups } := rfl

@[simp] theorem mem_ways_empty : w ∈ empty.ways fresh s ↔ w = ⟨[], s, []⟩ :=
  List.mem_singleton

@[simp] theorem mem_ways_one : w ∈ (one p).ways fresh s ↔
    ∃ c r, s = c :: r ∧ p c = true ∧ w = ⟨[c], r, []⟩ := by
  cases s with
  | nil => exact iff_of_false List.not_mem_nil (by simp)
  | cons c s =>
    rw [ways_one_cons]
    by_cases hc : p c = true <;> simp [hc]

@[simp] theorem mem_ways_char {c : Char} : w ∈ (char c).ways fresh s ↔
    ∃ r, s = c :: r ∧ w = ⟨[c], r, []⟩ := by
  simp only [char, mem_ways_one, beq_iff_eq]
  constructor
  · rintro ⟨d, r, rfl, rfl, rfl⟩
    exact ⟨r, rfl, rfl⟩
  · rintro ⟨r, rfl, rfl⟩
    exact ⟨c, r, rfl, rfl, rfl⟩

theorem mem_manyWays : w ∈ manyWays greedy p s ↔
    ∃ t r, s = t ++ r ∧ (∀ c ∈ t, p c = true) ∧ w = ⟨t, r, []⟩ := by
  induction s generalizing w with
  | nil =>
    rw [manyWays, List.mem_singleton]
    constructor
    · rintro rfl
      exact ⟨[], [], rfl, by simp, rfl⟩
    · rintro ⟨t, r, htr, -, rfl⟩
      obtain ⟨rfl, rfl⟩ := List.append_eq_nil_iff.mp htr.symm
      rfl
  | cons c s ih =>
    have hways : w ∈ manyWays greedy p (c :: s) ↔ w = ⟨[], c :: s, []⟩ ∨
        p c = true ∧ ∃ v ∈ manyWays greedy p s, w = { v with taken := c :: v.taken } := by
      cases greedy <;> by_cases hc : p c = true <;> simp [manyWays, hc, or_comm, eq_comm]
    rw [hways]
    constructor
    · rintro (rfl | ⟨hc, v, hv, rfl⟩)
      · exact ⟨[], c :: s, rfl, by simp, rfl⟩
      · obtain ⟨t, r, rfl, ht, rfl⟩ := ih.mp hv
        exact ⟨c :: t, r, rfl, List.forall_mem_cons.mpr ⟨hc, ht⟩, rfl⟩
    · rintro ⟨t, r, htr, ht, rfl⟩
      cases t with
      | nil =>
        obtain rfl : c :: s = r := htr
        exact .inl rfl
      | cons d t =>
        obtain ⟨rfl, rfl⟩ := List.cons.inj htr
        obtain ⟨hc, ht⟩ := List.forall_mem_cons.mp ht
        exact .inr ⟨hc, ⟨t, r, []⟩, ih.mpr ⟨t, r, rfl, ht, rfl⟩, rfl⟩

@[simp] theorem mem_ways_many : w ∈ (many greedy p).ways fresh s ↔
    ∃ t r, s = t ++ r ∧ (∀ c ∈ t, p c = true) ∧ w = ⟨t, r, []⟩ := mem_manyWays

@[simp] theorem mem_ways_lineStart : w ∈ lineStart.ways fresh s ↔
    fresh = true ∧ w = ⟨[], s, []⟩ := by
  rw [ways_lineStart]
  cases fresh <;> simp

def AtLineEnd (s : List Char) : Prop := ∀ c ∈ s.head?, c = '\n'

@[simp] theorem mem_ways_lineEnd : w ∈ lineEnd.ways fresh s ↔
    AtLineEnd s ∧ w = ⟨[], s, []⟩ := by
  rw [ways_lineEnd]
  cases s with
  | nil => simp [AtLineEnd]
  | cons c s => by_cases hc : c = '\n' <;> simp [AtLineEnd, hc]

@[simp] theorem mem_ways_seq : w ∈ (seq a b).ways fresh s ↔ ∃ t₁ r₁ g₁ t₂ r₂ g₂,
    ⟨t₁, r₁, g₁⟩ ∈ a.ways fresh s ∧ ⟨t₂, r₂, g₂⟩ ∈ b.ways (freshAfter fresh t₁) r₁ ∧
      w = ⟨t₁ ++ t₂, r₂, g₁ ++ g₂⟩ := by
  rw [ways_seq, List.mem_flatMap]
  constructor
  · rintro ⟨v, hv, hw⟩
    obtain ⟨u, hu, rfl⟩ := List.mem_map.mp hw
    exact ⟨v.taken, v.rest, v.groups, u.taken, u.rest, u.groups, hv, hu, rfl⟩
  · rintro ⟨t₁, r₁, g₁, t₂, r₂, g₂, hv, hu, rfl⟩
    exact ⟨⟨t₁, r₁, g₁⟩, hv, List.mem_map.mpr ⟨⟨t₂, r₂, g₂⟩, hu, rfl⟩⟩

@[simp] theorem mem_ways_orElse : w ∈ (orElse a b).ways fresh s ↔
    w ∈ a.ways fresh s ∨ w ∈ b.ways fresh s :=
  List.mem_append

@[simp] theorem mem_ways_group {n : Nat} : w ∈ (group n a).ways fresh s ↔
    ∃ t r g, ⟨t, r, g⟩ ∈ a.ways fresh s ∧ w = ⟨t, r, (n, t) :: g⟩ := by
  rw [ways_group, List.mem_map]
  constructor
  · rintro ⟨v, hv, rfl⟩
    exact ⟨v.taken, v.rest, v.groups, hv, rfl⟩
  · rintro ⟨t, r, g, hv, rfl⟩
    exact ⟨⟨t, r, g⟩, hv, rfl⟩

@[simp] theorem mem_ways_optional : w ∈ (optional a).ways fresh s ↔
    w ∈ a.ways fresh s ∨ w = ⟨[], s, []⟩ := by
  simp [optional]

@[simp] theorem mem_ways_oneOrMore : w ∈ (oneOrMore greedy p).ways fresh s ↔
    ∃ t r, s = t ++ r ∧ t ≠ [] ∧ (∀ c ∈ t, p c = true) ∧ w = ⟨t, r, []⟩ := by
  rw [oneOrMore, mem_ways_seq]
  constructor
  · rintro ⟨t₁, r₁, g₁, t₂, r₂, g₂, hone, hmany, rfl⟩
    obtain ⟨c, r, rfl, hc, ⟨⟩⟩ := mem_ways_one.mp hone
    obtain ⟨t, r', htr, ht, ⟨⟩⟩ := mem_ways_many.mp hmany
    exact ⟨c :: t₂, r₂, congrArg _ htr, by simp, List.forall_mem_cons.mpr ⟨hc, ht⟩, rfl⟩
  · rintro ⟨t, r, rfl, hne, ht, rfl⟩
    obtain ⟨c, t, rfl⟩ := List.exists_cons_of_ne_nil hne
    obtain ⟨hc, ht⟩ := List.forall_mem_cons.mp ht
    exact ⟨[c], t ++ r, [], t, r, [], mem_ways_one.mpr ⟨c, _, rfl, hc, rfl⟩,
      mem_ways_many.mpr ⟨t, r, rfl, ht, rfl⟩, rfl⟩

@[simp] theorem mem_ways_literal {word : List Char} : w ∈ (literal word).ways fresh s ↔
    ∃ r, s = word ++ r ∧ w = ⟨word, r, []⟩ := by
  induction word generalizing fresh s w with
  | nil => simp [literal]
  | cons c word ih =>
    have hcons : literal (c :: word) = seq (char c) (literal word) := rfl
    rw [hcons, mem_ways_seq]
    constructor
    · rintro ⟨t₁, r₁, g₁, t₂, r₂, g₂, hchar, hword, rfl⟩
      obtain ⟨_, rfl, ⟨⟩⟩ := mem_ways_char.mp hchar
      obtain ⟨_, rfl, ⟨⟩⟩ := ih.mp hword
      exact ⟨r₂, rfl, rfl⟩
    · rintro ⟨r, rfl, rfl⟩
      exact ⟨[c], word ++ r, [], word, r, [], mem_ways_char.mpr ⟨_, rfl, rfl⟩,
        ih.mpr ⟨r, rfl, rfl⟩, rfl⟩

/-! What a way takes and leaves. -/

theorem freshAfter_append (fresh : Bool) (s t : List Char) :
    freshAfter fresh (s ++ t) = freshAfter (freshAfter fresh s) t := by
  cases ht : t.getLast? <;> simp [freshAfter, List.getLast?_append, ht]

theorem freshAfter_cons (fresh : Bool) (c : Char) (s : List Char) :
    freshAfter fresh (c :: s) = freshAfter (c == '\n') s := freshAfter_append fresh [c] s

def AtLineStart (before : List Char) : Prop := ∀ c ∈ before.getLast?, c = '\n'

theorem freshAfter_true_iff {before : List Char} :
    freshAfter true before = true ↔ AtLineStart before := by
  cases hlast : before.getLast? <;> simp [freshAfter, AtLineStart, hlast]

theorem taken_append_rest (hw : w ∈ a.ways fresh s) : w.taken ++ w.rest = s := by
  induction a generalizing fresh s w with
  | empty =>
    rw [mem_ways_empty.mp hw]
    rfl
  | one p =>
    obtain ⟨c, r, rfl, -, rfl⟩ := mem_ways_one.mp hw
    rfl
  | many greedy p =>
    obtain ⟨t, r, rfl, -, rfl⟩ := mem_ways_many.mp hw
    rfl
  | lineStart =>
    rw [(mem_ways_lineStart.mp hw).2]
    rfl
  | lineEnd =>
    rw [(mem_ways_lineEnd.mp hw).2]
    rfl
  | seq a b iha ihb =>
    obtain ⟨t₁, r₁, g₁, t₂, r₂, g₂, hv, hu, rfl⟩ := mem_ways_seq.mp hw
    have hfirst : t₁ ++ r₁ = s := iha hv
    have hsecond : t₂ ++ r₂ = r₁ := ihb hu
    rw [← hfirst, ← hsecond]
    exact List.append_assoc ..
  | orElse a b iha ihb => exact (mem_ways_orElse.mp hw).elim iha ihb
  | group n a iha =>
    obtain ⟨t, r, g, hv, rfl⟩ := mem_ways_group.mp hw
    exact (iha hv :)

/-! Lines. -/

def Inline : Pattern → Prop
  | one p | many _ p => p '\n' = false
  | seq a b | orElse a b => a.Inline ∧ b.Inline
  | group _ a => a.Inline
  | empty | lineStart | lineEnd => True

theorem inline_char {c : Char} (hc : c ≠ '\n') : (char c).Inline := beq_eq_false_iff_ne.mpr hc.symm

theorem inline_literal {word : List Char} (h : '\n' ∉ word) : (literal word).Inline := by
  induction word with
  | nil => trivial
  | cons c word ih =>
    obtain ⟨hc, hword⟩ := not_or.mp (List.mem_cons.not.mp h)
    exact ⟨inline_char (Ne.symm hc), ih hword⟩

theorem manyWays_append (hp : p '\n' = false) (s more : List Char) :
    manyWays greedy p (s ++ '\n' :: more) =
      (manyWays greedy p s).map (Way.followedBy ('\n' :: more)) := by
  induction s with
  | nil => simp [manyWays, hp, Way.followedBy]
  | cons c s ih =>
    rw [List.cons_append, manyWays, manyWays, ih]
    by_cases hc : p c = true <;> cases greedy <;> simp [hc, Way.followedBy]

/-- Where a line ends, a pattern that takes no line feed matches in the same ways as where the text
ends. -/
theorem ways_append (ha : a.Inline) (fresh : Bool) (s more : List Char) :
    a.ways fresh (s ++ '\n' :: more) =
      (a.ways fresh s).map (Way.followedBy ('\n' :: more)) := by
  induction a generalizing fresh s with
  | empty => rfl
  | one p =>
    have hp : p '\n' = false := ha
    cases s with
    | nil =>
      rw [List.nil_append, ways_one_cons, hp]
      rfl
    | cons c s =>
      rw [List.cons_append, ways_one_cons, ways_one_cons]
      by_cases hc : p c = true <;> simp [hc, Way.followedBy]
  | many greedy p => exact manyWays_append ha s more
  | lineStart => cases fresh <;> rfl
  | lineEnd =>
    cases s with
    | nil => rfl
    | cons c s =>
      rw [List.cons_append, ways_lineEnd, ways_lineEnd]
      by_cases hc : c = '\n' <;> simp [hc, Way.followedBy]
  | seq a b iha ihb =>
    rw [ways_seq, ways_seq, iha ha.1, List.flatMap_map, List.map_flatMap]
    apply List.flatMap_congr
    intro v _
    have hrest : (Way.followedBy ('\n' :: more) v).rest = v.rest ++ '\n' :: more := rfl
    rw [hrest, ihb ha.2, List.map_map, List.map_map]
    rfl
  | orElse a b iha ihb => rw [ways_orElse, ways_orElse, iha ha.1, ihb ha.2, List.map_append]
  | group n a iha =>
    rw [ways_group, ways_group, iha ha, List.map_map, List.map_map]
    rfl

end Pattern
end Manuscript
