import Manuscript.Proofs.Markup.Absent

/-! Prose and macros. Prose may be cut anywhere and its pieces lexed on their own, and no macro or
fence gives a text token, so that prose before one stays a token of its own. -/
namespace Manuscript.Markup

variable {c : Char} {s : List Char} {t : Token}

theorem isOrdinary_iff : isOrdinary c = true ↔ c ≠ '\\' ∧ c ≠ '$' ∧ c ≠ '[' := by
  simp [isOrdinary, and_assoc]

theorem opening_of_isOrdinary (h : isOrdinary c = true) :
    opening c s = .prose (c :: s.takeWhile isOrdinary) (s.dropWhile isOrdinary) := by
  obtain ⟨hslash, hdollar, hbracket⟩ := isOrdinary_iff.mp h
  rw [opening, if_neg hslash, if_neg hdollar, if_neg hbracket]

theorem joinText_joinText (a b : List Char) (tokens : List Token) :
    joinText a (joinText b tokens) = joinText (a ++ b) tokens := by
  cases tokens with
  | nil => simp [joinText]
  | cons t tokens => cases t <;> simp [joinText, String.append_assoc]

theorem lex_cons_of_isOrdinary (hc : isOrdinary c = true) (s : List Char) :
    lex (c :: s) = joinText [c] (lex s) := by
  rw [lex_of_prose (opening_of_isOrdinary hc)]
  cases s with
  | nil => rfl
  | cons d s =>
    by_cases hd : isOrdinary d = true
    · rw [lex_of_prose (opening_of_isOrdinary hd), joinText_joinText,
        List.takeWhile_cons_of_pos hd, List.dropWhile_cons_of_pos hd]
      rfl
    · rw [List.takeWhile_cons_of_neg hd, List.dropWhile_cons_of_neg hd]

theorem lex_prose (hs : s ≠ []) (hplain : ∀ c ∈ s, isOrdinary c = true) (rest : List Char) :
    lex (s ++ rest) = joinText s (lex rest) := by
  induction s with
  | nil => exact absurd rfl hs
  | cons c s ih =>
    obtain ⟨hc, hplain⟩ := List.forall_mem_cons.mp hplain
    rw [List.cons_append, lex_cons_of_isOrdinary hc]
    by_cases hnil : s = []
    · rw [hnil, List.nil_append]
    · rw [ih hnil hplain, joinText_joinText]
      rfl

/-! Macros -/

def Token.isText : Token → Bool
  | .text _ => true
  | _ => false

theorem joinText_cons (ht : t.isText = false) (s : List Char) (tokens : List Token) :
    joinText s (t :: tokens) = .text (String.ofList s) :: t :: tokens := by
  cases t with
  | text => cases ht
  | _ => rfl

def Opening.Textless : Opening → Prop
  | .macros tokens _ => ∀ t ∈ tokens, t.isText = false
  | .prose _ _ | .fence _ _ _ => True

theorem textless_singleton (ht : t.isText = false) (rest : List Char) :
    (Opening.macros [t] rest).Textless := by
  intro u hu
  rw [List.mem_singleton.mp hu, ht]

theorem textless_unknown (raw rest : List Char) : (Opening.unknown raw rest).Textless :=
  textless_singleton rfl rest

theorem isText_close (f : Fence) (opener s : List Char)
    (found : Option (List Char × List Char)) : (f.close opener s found).1.isText = false := by
  cases found with
  | none => rfl
  | some found =>
    simp only [Fence.close]
    split <;> rfl

end Manuscript.Markup
