import Manuscript.Proofs.Markup.Offset.Safe

/-! Searches that are left out. In every state that a run reaches, no closer of a fence lies behind the
offset remembered for it, so what is answered from memory is what the text would answer. Main
statement: a lexer that forgets between its steps, and searches anew each time, gives the same tokens. -/
namespace Manuscript.Markup.Offset

open Manuscript.Text

variable {src pending rest : List Char} {st : State} {f : Fence} {i : Nat}

def firstCloser (src : List Char) (f : Fence) (i : Nat) : Option Nat :=
  ((dropBytes i src).bind (cut f.closer)).map fun found => i + byteLength found.1

def State.forget (st : State) : State := { st with absent := fun _ => none }

/-- The lexer without a memory. A step makes one search at most, and makes it in the text. -/
def runFresh (src : List Char) (st : State) : Checked (List Token) :=
  if st.pos < byteLength src then
    match step src st.forget with
    | .error e => .error e
    | .ok next => if st.pos < next.pos then runFresh src next else .error .stall
  else do
    let st ← flushText src st (byteLength src)
    .ok st.tokens
termination_by byteLength src - st.pos

def parseFresh (text : String) : Checked (List Token) := runFresh text.toList .start

inductive Reached (src : List Char) : State → Prop
  | start : Reached src .start
  | step {st next : State} : Reached src st → st.pos < byteLength src →
      Offset.step src st = .ok next → Reached src next

/-! Single searches -/

theorem findCached_fst (hknown : KnownAbsent src st.absent) (f : Fence) (i : Nat) :
    (findCached src st f i).1 = firstCloser src f i := by
  cases hdrop : dropBytes i src with
  | none =>
    -- inside a character nothing is found, whether or not the search is left out
    rw [findCached, firstCloser, hdrop]
    split <;> rfl
  | some s =>
    obtain ⟨absent, -, hfound⟩ := findCached_eq f (starts_of_dropBytes hdrop) hknown
    rw [hfound, firstCloser, hdrop, Option.bind_some]

theorem findCached_forget (src : List Char) (st : State) (f : Fence) (i : Nat) :
    (findCached src st.forget f i).1 = firstCloser src f i := by
  have hknown : KnownAbsent src st.forget.absent := knownAbsent_start src
  exact findCached_fst hknown f i

/-! Runs -/

theorem Invariant.forget (h : Invariant src st pending rest) :
    Invariant src st.forget pending rest :=
  ⟨h.text, h.pos_le, h.inside, h.tokens, knownAbsent_start src⟩

theorem runFresh_eq {st : State} {pending rest : List Char} (h : Invariant src st pending rest) :
    runFresh src st = .ok (lex src) := by
  rw [runFresh]
  by_cases hlt : st.pos < byteLength src
  · obtain ⟨next, _, _, hstep, hgt, hnext⟩ := step_advances h.forget hlt
    have hgt : st.pos < next.pos := hgt
    simp only [if_pos hlt, hstep, if_pos hgt]
    exact runFresh_eq hnext
  · obtain ⟨last, hflush, htokens⟩ := flushText_end h (Nat.le_of_not_lt hlt)
    rw [if_neg hlt, hflush, ok_bind, htokens]
termination_by byteLength src - st.pos
decreasing_by omega

theorem Reached.invariant (h : Reached src st) : ∃ pending rest, Invariant src st pending rest := by
  induction h with
  | start => exact ⟨[], src, invariant_start src⟩
  | step _ hlt hstep ih =>
    obtain ⟨pending, rest, hinv⟩ := ih
    obtain ⟨next, pending, rest, hnext, -, hinv⟩ := step_advances hinv hlt
    rw [hstep] at hnext
    cases hnext
    exact ⟨pending, rest, hinv⟩

/-- What is known to be absent never shows in the tokens: they are those of the lexer that looks for
every closer in the rest of the text, along the characters as well as on byte offsets. That lexer finds
the first closer each time, and so does the one with memory, for any closer from any offset, in each
state that a run reaches. -/
theorem memory_unseen (text : String) :
    Markup.parse text = lex text.toList ∧ parse text = parseFresh text ∧
      (∀ (st : State) f i, (findCached text.toList st.forget f i).1 = firstCloser text.toList f i) ∧
      ∀ st, Reached text.toList st → ∀ f i,
        (findCached text.toList st f i).1 = firstCloser text.toList f i := by
  have hstart := invariant_start text.toList
  refine ⟨scan_eq_lex [] _ (List.forall_mem_nil _), ?_, findCached_forget text.toList, ?_⟩
  · rw [parse, parseFresh, run_eq hstart, runFresh_eq hstart]
  · intro st hst f i
    obtain ⟨pending, rest, hinv⟩ := hst.invariant
    exact findCached_fst hinv.known f i

theorem memory_unseen_starred :
    let text := "\\begin\x7balign\x7d\\end\x7balign*\x7d"
    ∃ st, Reached text.toList st ∧ st.absent (.environment .align) = some 13 ∧
      (findCached text.toList st (.environment .align) 13).1 = none ∧
      (findCached text.toList st (.environment .alignStar) 13).1 = some 13 := by
  intro text
  have hafter : (step text.toList .start).toOption.map (fun st =>
      st.absent (.environment .align)) = some (some 13) := by decide +kernel
  cases hstep : step text.toList .start with
  | error e =>
    rw [hstep] at hafter
    cases hafter
  | ok st =>
    have halign : st.absent (.environment .align) = some 13 := by
      simpa [hstep, Except.toOption] using hafter
    have hst := Reached.start.step (by decide) hstep
    obtain ⟨-, -, -, hsearch⟩ := memory_unseen text
    refine ⟨st, hst, halign, ?_, ?_⟩
    · rw [hsearch st hst]
      decide
    · rw [hsearch st hst]
      decide

end Manuscript.Markup.Offset
