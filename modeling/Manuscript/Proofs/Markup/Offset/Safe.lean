import Manuscript.Proofs.Markup.Grammar
import Manuscript.Proofs.Markup.Offset.Opening

/-! The byte lexer is safe and exact. Between two steps the tokens emitted so far, the pending prose
and the tokens of the rest make up the tokens of the text, and the position is at the end of the
pending prose or inside its last character. No step from there meets a fault, and each goes forward,
so a run ends with the tokens that the lexer along the characters gives. -/
namespace Manuscript.Markup.Offset

open Manuscript.Text

variable {src pending rest s : List Char} {c : Char} {st : State} {stop : Nat}
  {result : Checked State} {tokens : List Token} {absent : Fence → Option Nat}

def joinPending (pending : List Char) (tokens : List Token) : List Token :=
  if pending = [] then tokens else joinText pending tokens

theorem joinPending_joinText (pending : List Char) {run : List Char} (hrun : run ≠ [])
    (tokens : List Token) :
    joinPending pending (joinText run tokens) = joinPending (pending ++ run) tokens := by
  have hne : pending ++ run ≠ [] := List.append_ne_nil_of_right_ne_nil pending hrun
  by_cases hp : pending = []
  · rw [joinPending, joinPending, if_pos hp, if_neg hne, hp, List.nil_append]
  · rw [joinPending, joinPending, if_neg hp, if_neg hne, joinText_joinText]

theorem joinPending_cons {t : Token} (ht : t.isText = false) (pending : List Char)
    (tokens : List Token) :
    joinPending pending (t :: tokens) = flushed pending ++ t :: tokens := by
  by_cases hp : pending = []
  · rw [joinPending, if_pos hp, flushed, if_pos hp, List.nil_append]
  · rw [joinPending, if_neg hp, flushed, if_neg hp, joinText_cons ht]
    rfl

theorem joinPending_nil (pending : List Char) : joinPending pending [] = flushed pending := rfl

structure Invariant (src : List Char) (st : State) (pending rest : List Char) : Prop where
  text : Starts src st.textStart (pending ++ rest)
  pos_le : st.pos ≤ st.textStart + byteLength pending
  inside : High src st.pos (st.textStart + byteLength pending)
  tokens : st.tokens ++ joinPending pending (lex rest) = lex src
  known : KnownAbsent src st.absent

theorem invariant_start (src : List Char) : Invariant src .start [] src where
  text := starts_zero src
  pos_le := Nat.le_refl _
  inside := fun _ h h' => absurd h' (Nat.not_lt_of_le h)
  tokens := by simp [State.start, joinPending]
  known := knownAbsent_start src

theorem invariant_pending (h : Pending src st pending rest)
    (htokens : st.tokens ++ joinPending pending (lex rest) = lex src)
    (hknown : KnownAbsent src st.absent) : Invariant src st pending rest where
  text := h.text
  pos_le := Nat.le_of_eq h.pos_eq
  inside := fun k hk hk' => by
    have hpos := h.pos_eq
    omega
  tokens := htokens
  known := hknown

theorem invariant_emitted (h : Starts src stop rest)
    (htokens : st.tokens ++ (flushed pending ++ (tokens ++ lex rest)) = lex src)
    (hknown : KnownAbsent src absent) :
    Invariant src ({ st with absent }.emitted pending tokens stop) [] rest where
  text := h
  pos_le := Nat.le_refl _
  inside := fun _ h h' => absurd h' (Nat.not_lt_of_le h)
  tokens := by
    rw [← htokens]
    simp [State.emitted, State.push, State.resume, joinPending]
  known := hknown

/-- The step ends without a fault, further on, and keeps the invariant. -/
def Advances (src : List Char) (st : State) (result : Checked State) : Prop :=
  ∃ next pending rest, result = .ok next ∧ st.pos < next.pos ∧ Invariant src next pending rest

/-! Steps at a character -/

theorem advances_prose {run : List Char} (h : Pending src st pending (c :: s))
    (htokens : st.tokens ++ joinPending pending (lex (c :: s)) = lex src)
    (hknown : KnownAbsent src st.absent) (ho : opening c s = .prose run rest)
    (hresult : result = .ok { st with pos := st.pos + byteLength run }) :
    Advances src st result := by
  have hne := taken_ne_nil c s
  have htaken := taken_append_rest c s
  rw [ho, Opening.taken] at hne
  rw [ho, Opening.taken, Opening.rest] at htaken
  have hpos := h.pos_eq
  have hlen := byteLength_pos_of_ne_nil hne
  have hnext : Pending src { st with pos := st.pos + byteLength run } (pending ++ run) rest := by
    refine ⟨?_, ?_⟩
    · rw [List.append_assoc, htaken]
      exact h.text
    · rw [byteLength_append]
      dsimp only
      omega
  refine ⟨_, pending ++ run, rest, hresult, Nat.lt_add_of_pos_right hlen, ?_⟩
  apply invariant_pending hnext _ hknown
  rw [← htokens, lex_of_prose ho, joinPending_joinText pending hne]

theorem advances_emitted {t : Token} (tokens : List Token) (h : Pending src st pending (c :: s))
    (htokens : st.tokens ++ joinPending pending (lex (c :: s)) = lex src)
    (habsent : KnownAbsent src absent) (ht : t.isText = false)
    (hlex : lex (c :: s) = t :: (tokens ++ lex rest))
    (hsource : source (t :: tokens) ++ rest = c :: s) (hne : source (t :: tokens) ≠ [])
    (hresult : result = .ok ({ st with absent }.emitted pending (t :: tokens)
      (st.pos + byteLength (source (t :: tokens))))) :
    Advances src st result := by
  have hlen := byteLength_pos_of_ne_nil hne
  have hstart := h.starts
  rw [← hsource] at hstart
  refine ⟨_, [], rest, hresult, Nat.lt_add_of_pos_right hlen, ?_⟩
  apply invariant_emitted (hstart.after rfl) _ habsent
  rw [← htokens, hlex, joinPending_cons ht, List.cons_append]

theorem advances_of_follows (h : Pending src st pending (c :: s))
    (htokens : st.tokens ++ joinPending pending (lex (c :: s)) = lex src)
    (hknown : KnownAbsent src st.absent)
    (hfollows : Follows src st pending result (opening c s)) : Advances src st result := by
  have hne := taken_ne_nil c s
  have htaken := taken_append_rest c s
  have htext := textless_opening c s
  cases ho : opening c s with
  | prose run rest =>
    rw [ho] at hfollows
    exact advances_prose h htokens hknown ho hfollows
  | macros tokens rest =>
    rw [ho] at hne htaken htext hfollows
    cases tokens with
    | nil => exact absurd rfl hne
    | cons t tokens =>
      have ht := htext t List.mem_cons_self
      exact advances_emitted tokens h htokens hknown ht (lex_of_macros ho) htaken hne hfollows
  | fence f opener rest =>
    rw [ho] at hne htaken hfollows
    obtain ⟨absent, habsent, hresult⟩ := hfollows
    have hraw := raw_close_append_rest f opener rest
    obtain ⟨t, ht⟩ := raw_close_eq_append f opener rest (cut f.closer rest)
    have hlex := lex_of_fence ho
    have htoken := isText_close f opener rest (cut f.closer rest)
    generalize f.close opener rest (cut f.closer rest) = closed at *
    have hsource : source [closed.1] = closed.1.raw.toList := by simp
    apply advances_emitted [] h htokens habsent htoken hlex
    · rw [hsource, hraw]
      exact htaken
    · rw [hsource, ht]
      exact List.append_ne_nil_of_left_ne_nil hne t
    · rw [hsource]
      exact hresult

theorem step_eq {b : UInt8} (hb : byteAt src st.pos = .ok b) :
    step src st = passing st (consume src st b) := by
  rw [step, hb, ok_bind, passing]
  cases consume src st b <;> rfl

theorem follows_step (h : Pending src st pending (c :: s)) (hknown : KnownAbsent src st.absent)
    (hc : isOrdinary c = false) : Follows src st pending (step src st) (opening c s) := by
  obtain ⟨b, _, hb, hlead⟩ := h.starts.byteAt
  simp only [step_eq hb, consume, opening, hlead.eq_ascii_iff (d := '\\') (by decide),
    hlead.eq_ascii_iff (d := '$') (by decide), hlead.eq_ascii_iff (d := '[') (by decide)]
  by_cases hslash : c = '\\'
  · subst hslash
    rw [if_pos rfl, if_pos rfl, passing_some]
    exact follows_lexBackslash h hknown
  · rw [if_neg hslash, if_neg hslash]
    by_cases hdollar : c = '$'
    · subst hdollar
      rw [if_pos rfl, if_pos rfl, passing_some]
      exact follows_lexDollar h hknown
    · rw [if_neg hdollar, if_neg hdollar]
      by_cases hbracket : c = '['
      · subst hbracket
        rw [if_pos rfl, if_pos rfl]
        exact follows_lexBracket h
      · have hordinary := isOrdinary_iff.mpr ⟨hslash, hdollar, hbracket⟩
        rw [hc] at hordinary
        cases hordinary

theorem step_passes {b : UInt8} (hb : byteAt src st.pos = .ok b)
    (hplain : ∀ d ∈ ['\\', '$', '['], b ≠ ascii d) :
    step src st = .ok { st with pos := st.pos + 1 } := by
  have hslash := hplain '\\' (by simp)
  have hdollar := hplain '$' (by simp)
  have hbracket := hplain '[' (by simp)
  rw [step_eq hb, consume, if_neg hslash, if_neg hdollar, if_neg hbracket]
  rfl

theorem advances_ordinary (h : Pending src st pending (c :: s))
    (htokens : st.tokens ++ joinPending pending (lex (c :: s)) = lex src)
    (hknown : KnownAbsent src st.absent) (hc : isOrdinary c = true) :
    Advances src st (step src st) := by
  obtain ⟨b, _, hb, hlead⟩ := h.starts.byteAt
  obtain ⟨hslash, hdollar, hbracket⟩ := isOrdinary_iff.mp hc
  have hplain : ∀ d ∈ ['\\', '$', '['], b ≠ ascii d := by
    intro d hd
    simp only [List.mem_cons, List.not_mem_nil, or_false] at hd
    rcases hd with rfl | rfl | rfl
    · exact fun hd => hslash ((hlead.eq_ascii_iff (by decide)).mp hd)
    · exact fun hd => hdollar ((hlead.eq_ascii_iff (by decide)).mp hd)
    · exact fun hd => hbracket ((hlead.eq_ascii_iff (by decide)).mp hd)
  have hpos := h.pos_eq
  have hsize := c.utf8Size_pos
  have hend : st.textStart + byteLength (pending ++ [c]) = st.pos + c.utf8Size := by
    simp only [byteLength_append, byteLength_cons, byteLength_nil]
    omega
  refine ⟨_, pending ++ [c], s, step_passes hb hplain, Nat.lt_succ_self _, ?_⟩
  refine ⟨?_, ?_, ?_, ?_, hknown⟩
  · rw [List.append_assoc]
    exact h.text
  · dsimp only
    omega
  · dsimp only
    rw [hend]
    exact h.starts.high
  · rw [← htokens, lex_cons_of_isOrdinary hc, joinPending_joinText pending (List.cons_ne_nil c [])]

/-- Inside a character the bytes are above ASCII and begin nothing. -/
theorem advances_inside (h : Invariant src st pending rest)
    (hlt : st.pos < st.textStart + byteLength pending) : Advances src st (step src st) := by
  obtain ⟨b, hb, hhigh⟩ := h.inside st.pos (Nat.le_refl _) hlt
  have hplain : ∀ d ∈ ['\\', '$', '['], b ≠ ascii d := by
    intro d hd
    simp only [List.mem_cons, List.not_mem_nil, or_false] at hd
    rcases hd with rfl | rfl | rfl <;> exact ne_ascii_of_high hhigh (by decide)
  refine ⟨_, pending, rest, step_passes hb hplain, Nat.lt_succ_self _, ?_⟩
  exact ⟨h.text, hlt, fun k hk hk' => h.inside k (Nat.le_of_succ_le hk) hk', h.tokens, h.known⟩

theorem Invariant.atEnd (h : Invariant src st pending rest)
    (hpos : st.pos = st.textStart + byteLength pending) : Pending src st pending rest :=
  ⟨h.text, hpos⟩

theorem step_advances (h : Invariant src st pending rest) (hlt : st.pos < byteLength src) :
    Advances src st (step src st) := by
  by_cases hinside : st.pos < st.textStart + byteLength pending
  · exact advances_inside h hinside
  · have hpending := h.atEnd (Nat.le_antisymm h.pos_le (Nat.le_of_not_lt hinside))
    cases rest with
    | nil =>
      rw [hpending.starts.byteLength_eq, byteLength_nil] at hlt
      exact absurd hlt (Nat.lt_irrefl _)
    | cons c s =>
      cases hc : isOrdinary c with
      | true => exact advances_ordinary hpending h.tokens h.known hc
      | false =>
        exact advances_of_follows hpending h.tokens h.known (follows_step hpending h.known hc)

/-! Runs -/

theorem flushText_end (h : Invariant src st pending rest) (hend : byteLength src ≤ st.pos) :
    ∃ last, flushText src st (byteLength src) = .ok last ∧ last.tokens = lex src := by
  have hle := h.pos_le
  have htotal := h.text.byteLength_eq
  rw [byteLength_append] at htotal
  have hpos : st.pos = st.textStart + byteLength pending := by omega
  have hpending := h.atEnd hpos
  have hrest : rest = [] := by
    cases rest with
    | nil => rfl
    | cons c s => exact absurd hpending.starts.lt_of_cons (Nat.not_lt_of_le hend)
  subst hrest
  have hlen : byteLength src = st.pos := hpending.starts.byteLength_eq
  refine ⟨_, by rw [hlen, flushText_eq hpending], ?_⟩
  rw [← h.tokens, lex, joinPending_nil]
  rfl

theorem run_eq (h : Invariant src st pending rest) : run src st = .ok (lex src) := by
  fun_induction run src st generalizing pending rest with
  | case1 st hlt e he =>
    obtain ⟨next, _, _, hstep, _⟩ := step_advances h hlt
    rw [he] at hstep
    cases hstep
  | case2 st hlt next hnext hgt ih =>
    obtain ⟨next', pending, rest, hstep, _, hinv⟩ := step_advances h hlt
    rw [hnext] at hstep
    cases hstep
    exact ih hinv
  | case3 st hlt next hnext hle =>
    obtain ⟨next', _, _, hstep, hgt, _⟩ := step_advances h hlt
    rw [hnext] at hstep
    cases hstep
    exact absurd hgt hle
  | case4 st hge =>
    obtain ⟨last, hflush, htokens⟩ := flushText_end h (Nat.le_of_not_lt hge)
    rw [hflush, ok_bind, htokens]

/-- On every text the byte lexer runs to its end without a fault: each byte it reads is there, each
cut lies between characters of the text in their order, and no difference falls below zero. Its tokens
are those of the lexer along the characters. -/
theorem parse_eq_ok (text : String) : parse text = .ok (Markup.parse text) := by
  rw [parse, run_eq (invariant_start text.toList), Markup.parse, scan_eq_lex [] _ (by simp)]

end Manuscript.Markup.Offset
