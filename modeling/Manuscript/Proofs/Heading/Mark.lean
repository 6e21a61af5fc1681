import Mathlib.Data.List.TakeWhile
import Manuscript.Heading.Extract
import Manuscript.Proofs.Pattern.Search
import Manuscript.Proofs.Text.Blank

/-! Lines of marks as they are written: one to three `#`, a space or tab, and a remainder. Main
statements: the reader of marks reads those whose remainder is not blank, and a pattern that matches
such a line, in whatever way, has the same marks and, but for blanks around it, the same text. -/
namespace Manuscript.Heading

structure Mark where
  hashes : Nat
  gap : Char
  remainder : List Char
  deriving DecidableEq, Repr

namespace Mark

open Pattern

def isGap (c : Char) : Bool := c == ' ' || c == '\t'

def written (m : Mark) : List Char := List.replicate m.hashes '#' ++ m.gap :: m.remainder

structure Valid (m : Mark) : Prop where
  pos : 1 ≤ m.hashes
  le : m.hashes ≤ 3
  gap : isGap m.gap = true
  line : '\n' ∉ m.remainder

def found (m : Mark) : Found := ⟨UInt32.ofNat m.hashes, Text.trim m.remainder⟩

variable {m m' : Mark} {c : Char} {s t line rest rest' : List Char} {fresh : Bool} {w : Way}

theorem ne_hash_of_isGap (h : isGap c = true) : (c == '#') = false := by
  rw [isGap, Bool.or_eq_true, beq_iff_eq, beq_iff_eq] at h
  rcases h with rfl | rfl
  · rfl
  · rfl

theorem isBlank_of_isGap (h : isGap c = true) : Text.isBlank c = true := by
  rw [isGap, Bool.or_eq_true, beq_iff_eq, beq_iff_eq] at h
  rcases h with rfl | rfl
  · rfl
  · rfl

theorem allBlank_of_isGap (h : ∀ c ∈ s, isGap c = true) : Text.allBlank s = true :=
  List.all_eq_true.mpr fun c hc => isBlank_of_isGap (h c hc)

structure At (text : List Char) (n : Nat) (m : Mark) : Prop where
  valid : m.Valid
  stands : ∃ before rest, text = before ++ (m.written ++ rest) ∧ before.length = n ∧
    AtLineStart before ∧ AtLineEnd rest

theorem Valid.ne_feed (hm : m.Valid) : ∀ c ∈ m.remainder, (c != '\n') = true := by
  intro c hc
  exact bne_iff_ne.mpr fun hfeed => hm.line (hfeed ▸ hc)

theorem feed_notMem_written (hm : m.Valid) : '\n' ∉ m.written := by
  rw [written, List.mem_append, List.mem_cons]
  rintro (hfeed | hfeed | hfeed)
  · exact absurd (List.eq_of_mem_replicate hfeed) (by decide)
  · exact absurd (hfeed ▸ hm.gap) (by decide)
  · exact hm.line hfeed

theorem head?_written (hm : m.Valid) : m.written.head? = some '#' := by
  rw [written, List.head?_append, List.head?_replicate, if_neg (Nat.one_le_iff_ne_zero.mp hm.pos)]
  rfl

/-! Read without a pattern. -/

theorem span_written (hm : m.Valid) (rest : List Char) :
    (m.written ++ rest).takeWhile (· == '#') = List.replicate m.hashes '#' ∧
      (m.written ++ rest).dropWhile (· == '#') = m.gap :: (m.remainder ++ rest) := by
  rw [written, List.append_assoc]
  apply Text.span_append
  · intro c hc
    exact beq_iff_eq.mpr (List.eq_of_mem_replicate hc)
  · intro c hc
    obtain rfl : m.gap = c := Option.some.inj hc
    exact ne_hash_of_isGap hm.gap

theorem marked?_written (hm : m.Valid) :
    marked? m.written = if Text.allBlank m.remainder then none else some m.found := by
  obtain ⟨htake, hdrop⟩ := span_written hm []
  rw [List.append_nil, List.append_nil] at hdrop
  rw [List.append_nil] at htake
  have hgap : m.gap = ' ' ∨ m.gap = '\t' := by
    simpa only [isGap, Bool.or_eq_true, beq_iff_eq] using hm.gap
  rw [marked?, hdrop, htake, List.length_replicate]
  exact if_pos ⟨hm.pos, hm.le, hgap⟩

theorem marked?_eq_some_iff {f : Found} (hline : '\n' ∉ line) : marked? line = some f ↔
    ∃ m : Mark, m.Valid ∧ Text.allBlank m.remainder = false ∧ line = m.written ∧ f = m.found := by
  constructor
  · intro h
    rw [marked?] at h
    split at h
    · next c rest hdrop =>
      have hhashes : line.takeWhile (· == '#') =
          List.replicate (line.takeWhile (· == '#')).length '#' := by
        refine List.eq_replicate_iff.mpr ⟨rfl, fun d hd => ?_⟩
        exact beq_iff_eq.mp (List.mem_takeWhile_imp (p := (· == '#')) hd)
      have hwritten :
          line = List.replicate (line.takeWhile (· == '#')).length '#' ++ c :: rest := by
        rw [← hhashes, ← hdrop, List.takeWhile_append_dropWhile]
      split at h
      · next hmarks =>
        obtain ⟨hpos, hle, hgap⟩ := hmarks
        split at h
        · cases h
        · next hvisible =>
          refine ⟨⟨_, c, rest⟩, ⟨hpos, hle, ?_, ?_⟩, Bool.eq_false_iff.mpr hvisible, hwritten,
            (Option.some.inj h).symm⟩
          · rw [isGap, Bool.or_eq_true, beq_iff_eq, beq_iff_eq]
            exact hgap
          · rw [hwritten] at hline
            exact fun hfeed => hline (List.mem_append_right _ (List.mem_cons_of_mem c hfeed))
      · cases h
    · cases h
  · rintro ⟨m, hm, hvisible, rfl, rfl⟩
    rw [marked?_written hm, hvisible]
    rfl

theorem takeWhile_remainder (hm : m.Valid) (hrest : AtLineEnd rest) :
    (m.remainder ++ rest).takeWhile (· != '\n') = m.remainder := by
  refine (Text.span_append hm.ne_feed ?_).1
  intro c hc
  rw [hrest c hc]
  rfl

theorem written_append_inj (hm : m.Valid) (hm' : m'.Valid) (hrest : AtLineEnd rest)
    (hrest' : AtLineEnd rest') (h : m.written ++ rest = m'.written ++ rest') : m = m' := by
  obtain ⟨htake, hdrop⟩ := span_written hm rest
  obtain ⟨htake', hdrop'⟩ := span_written hm' rest'
  rw [h, htake'] at htake
  rw [h, hdrop'] at hdrop
  have hhashes : m'.hashes = m.hashes := by simpa using congrArg List.length htake
  obtain ⟨hgap, hbehind⟩ := List.cons.inj hdrop
  have hremainder : m'.remainder = m.remainder := by
    rw [← takeWhile_remainder hm' hrest', hbehind, takeWhile_remainder hm hrest]
  cases m
  cases m'
  cases hhashes
  cases hgap
  cases hremainder
  rfl

/-- A line of marks does not begin inside of another one. -/
theorem At.eq_of_inside {n n' : Nat} (h : m.At s n) (h' : m'.At s n') (hle : n' ≤ n)
    (hlt : n < n' + m'.written.length) : n = n' ∧ m = m' := by
  obtain ⟨before, rest, hs, rfl, hstart, hrest⟩ := h.stands
  obtain ⟨before', rest', hs', rfl, hstart', hrest'⟩ := h'.stands
  have hsame : ∀ more, more = [] → m.written ++ rest = more ++ (m'.written ++ rest') → m = m' := by
    rintro more rfl hmore
    exact written_append_inj h.valid h'.valid hrest hrest' hmore
  rcases List.append_eq_append_iff.mp (hs.symm.trans hs') with
    ⟨more, rfl, hmore⟩ | ⟨more, rfl, hmore⟩
  · obtain rfl : more = [] := by
      rw [List.length_append] at hle
      exact List.eq_nil_of_length_eq_zero (by omega)
    exact ⟨by simp, hsame [] rfl hmore⟩
  · cases hlast : more.getLast? with
    | none =>
      obtain rfl := List.getLast?_eq_none_iff.mp hlast
      exact ⟨by simp, (hsame [] rfl (by simpa using hmore.symm))⟩
    | some c =>
      -- a line feed stands before the second line, thus inside of the first
      have hfeed : c = '\n' := hstart c (by rw [List.getLast?_append, hlast]; rfl)
      rw [List.length_append] at hlt
      have hprefix : more <+: m'.written :=
        List.prefix_of_prefix_length_le ⟨_, hmore.symm⟩ (List.prefix_append _ rest') (by omega)
      have hmem : c ∈ m'.written := hprefix.subset (List.mem_of_getLast? hlast)
      exact absurd (hfeed ▸ hmem) (feed_notMem_written h'.valid)

theorem At.of_line {n : Nat} (h : m.At line n) (hline : '\n' ∉ line) :
    n = 0 ∧ line = m.written := by
  obtain ⟨before, rest, rfl, rfl, hstart, hrest⟩ := h.stands
  rw [List.mem_append, List.mem_append, not_or, not_or] at hline
  obtain ⟨hbefore, -, hbehind⟩ := hline
  obtain rfl : before = [] := by
    rw [← List.getLast?_eq_none_iff, Option.eq_none_iff_forall_ne_some]
    intro c hc
    exact hbefore (hstart c hc ▸ List.mem_of_getLast? hc)
  obtain rfl : rest = [] := by
    rw [← List.head?_eq_none_iff, Option.eq_none_iff_forall_ne_some]
    intro c hc
    exact hbehind (hrest c hc ▸ List.mem_of_mem_head? hc)
  exact ⟨rfl, List.append_nil _⟩

theorem at_written (hm : m.Valid) : m.At m.written 0 :=
  ⟨hm, [], [], (List.append_nil _).symm, rfl, by simp [AtLineStart], by simp [AtLineEnd]⟩

/-! Read by a pattern. -/

def hashesPattern : Pattern :=
  .seq (.char '#') (.optional (.seq (.char '#') (.optional (.char '#'))))

/-- At the start of a line one to three `#`, then spaces or tabs, then a text, as short as the spaces
and tabs behind it let it be, up to the end of the line. -/
def pattern : Pattern :=
  .seq .lineStart (.seq (.group 1 hashesPattern) (.seq (.oneOrMore true isGap)
    (.seq (.group 2 (.oneOrMore false (· != '\n'))) (.seq (.many true isGap) .lineEnd))))

theorem mem_ways_hashesPattern : w ∈ hashesPattern.ways fresh s ↔ ∃ n r, 1 ≤ n ∧ n ≤ 3 ∧
    s = List.replicate n '#' ++ r ∧ w = ⟨List.replicate n '#', r, []⟩ := by
  constructor
  · intro hw
    obtain ⟨_, _, _, _, r, _, hfirst, hmore, rfl⟩ := mem_ways_seq.mp hw
    obtain ⟨_, rfl, ⟨⟩⟩ := mem_ways_char.mp hfirst
    rcases mem_ways_optional.mp hmore with htwo | hnone
    · obtain ⟨_, _, _, _, _, _, hsecond, hlast, hboth⟩ := mem_ways_seq.mp htwo
      obtain ⟨rfl, rfl, rfl⟩ := Way.mk.inj hboth
      obtain ⟨_, rfl, ⟨⟩⟩ := mem_ways_char.mp hsecond
      rcases mem_ways_optional.mp hlast with hthird | hnone
      · obtain ⟨_, rfl, ⟨⟩⟩ := mem_ways_char.mp hthird
        exact ⟨3, r, by decide, by decide, rfl, rfl⟩
      · obtain ⟨rfl, rfl, rfl⟩ := Way.mk.inj hnone
        exact ⟨2, r, by decide, by decide, rfl, rfl⟩
    · obtain ⟨rfl, rfl, rfl⟩ := Way.mk.inj hnone
      exact ⟨1, r, by decide, by decide, rfl, rfl⟩
  · rintro ⟨n, r, hpos, hle, rfl, rfl⟩
    obtain rfl | rfl | rfl : n = 1 ∨ n = 2 ∨ n = 3 := by omega
    · simp [hashesPattern]
    · simp [hashesPattern, List.replicate]
    · simp [hashesPattern, List.replicate]

/-- However much of the blanks around it the text takes, it trims to the same. -/
theorem exists_of_mem_ways (hw : w ∈ pattern.ways fresh s) : fresh = true ∧
    ∃ (m : Mark) (t rest : List Char), m.Valid ∧ AtLineEnd rest ∧
      Text.trim t = Text.trim m.remainder ∧
      w = ⟨m.written, rest, [(1, List.replicate m.hashes '#'), (2, t)]⟩ := by
  obtain ⟨_, _, _, _, _, _, hstart, hw₁, rfl⟩ := mem_ways_seq.mp hw
  obtain ⟨rfl, ⟨⟩⟩ := mem_ways_lineStart.mp hstart
  obtain ⟨_, _, _, _, _, _, hmarks, hw₂, ⟨⟩⟩ := mem_ways_seq.mp hw₁
  obtain ⟨_, _, _, hhashes, ⟨⟩⟩ := mem_ways_group.mp hmarks
  obtain ⟨n, _, hpos, hle, rfl, ⟨⟩⟩ := mem_ways_hashesPattern.mp hhashes
  obtain ⟨gaps, _, _, _, _, _, hgap, hw₃, ⟨⟩⟩ := mem_ways_seq.mp hw₂
  obtain ⟨_, _, rfl, hne, hgaps, ⟨⟩⟩ := mem_ways_oneOrMore.mp hgap
  obtain ⟨t, _, _, _, _, _, hinner, hw₄, ⟨⟩⟩ := mem_ways_seq.mp hw₃
  obtain ⟨_, _, _, htext, ⟨⟩⟩ := mem_ways_group.mp hinner
  obtain ⟨_, _, rfl, -, ht, ⟨⟩⟩ := mem_ways_oneOrMore.mp htext
  obtain ⟨blanks, _, _, _, _, _, hmany, hlast, ⟨⟩⟩ := mem_ways_seq.mp hw₄
  obtain ⟨_, _, rfl, hblanks, ⟨⟩⟩ := mem_ways_many.mp hmany
  obtain ⟨hend, ⟨⟩⟩ := mem_ways_lineEnd.mp hlast
  obtain ⟨gap, gaps, rfl⟩ := List.exists_cons_of_ne_nil hne
  obtain ⟨hgap, hgaps⟩ := List.forall_mem_cons.mp hgaps
  refine ⟨rfl, ⟨n, gap, gaps ++ (t ++ blanks)⟩, t, _, ⟨hpos, hle, hgap, ?_⟩, hend, ?_, ?_⟩
  · intro hfeed
    simp only [List.mem_append] at hfeed
    rcases hfeed with hfeed | hfeed | hfeed
    · exact absurd (hgaps _ hfeed) (by decide)
    · exact absurd (ht _ hfeed) (by decide)
    · exact absurd (hblanks _ hfeed) (by decide)
  · rw [Text.trim_blank_append (allBlank_of_isGap hgaps),
      Text.trim_append_blank t (allBlank_of_isGap hblanks)]
  · rw [written, List.append_nil]
    rfl

theorem mem_ways_pattern (hm : m.Valid) (hne : m.remainder ≠ []) (hrest : AtLineEnd rest) :
    ⟨m.written, rest, [(1, List.replicate m.hashes '#'), (2, m.remainder)]⟩ ∈
      pattern.ways true (m.written ++ rest) := by
  have hgap : ∀ c ∈ [m.gap], isGap c = true := by
    intro c hc
    rw [List.mem_singleton.mp hc]
    exact hm.gap
  have htext : m.written ++ rest =
      List.replicate m.hashes '#' ++ ([m.gap] ++ (m.remainder ++ ([] ++ rest))) := by
    simp [written]
  have htaken : m.written = List.replicate m.hashes '#' ++ ([m.gap] ++ (m.remainder ++ [])) := by
    simp [written]
  rw [htext, htaken]
  refine mem_ways_seq.mpr ⟨_, _, _, _, _, _, mem_ways_lineStart.mpr ⟨rfl, rfl⟩, ?_, rfl⟩
  refine mem_ways_seq.mpr ⟨_, _, _, _, _, _, mem_ways_group.mpr ⟨_, _, _,
    mem_ways_hashesPattern.mpr ⟨m.hashes, _, hm.pos, hm.le, rfl, rfl⟩, rfl⟩, ?_, rfl⟩
  refine mem_ways_seq.mpr ⟨_, _, _, _, _, _,
    mem_ways_oneOrMore.mpr ⟨_, _, rfl, List.cons_ne_nil _ _, hgap, rfl⟩, ?_, rfl⟩
  refine mem_ways_seq.mpr ⟨_, _, _, _, _, _, mem_ways_group.mpr ⟨_, _, _,
    mem_ways_oneOrMore.mpr ⟨_, _, rfl, hne, hm.ne_feed, rfl⟩, rfl⟩, ?_, rfl⟩
  refine mem_ways_seq.mpr ⟨_, _, _, _, _, _,
    mem_ways_many.mpr ⟨[], rest, rfl, List.forall_mem_nil _, rfl⟩, ?_, rfl⟩
  exact mem_ways_lineEnd.mpr ⟨hrest, rfl⟩

theorem inline_pattern : pattern.Inline := by
  have hhash : (char '#').Inline := inline_char (by decide)
  exact ⟨trivial, ⟨hhash, ⟨hhash, hhash, trivial⟩, trivial⟩, ⟨rfl, rfl⟩, ⟨rfl, rfl⟩, rfl, trivial⟩

theorem takesSome_pattern : pattern.TakesSome := by
  intro fresh s w hw
  obtain ⟨-, m, t, rest, -, -, -, rfl⟩ := exists_of_mem_ways hw
  exact List.append_ne_nil_of_right_ne_nil _ (List.cons_ne_nil _ _)

end Mark
end Manuscript.Heading
