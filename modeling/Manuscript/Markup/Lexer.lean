import Manuscript.Markup.Opening
import Manuscript.Text.Search

/-! Splitting section text into tokens. `lex` looks for each closer in the rest of the text; `scan`
remembers which closers are known to be absent, so that it looks for none of them twice. -/
namespace Manuscript.Markup

def joinText (run : List Char) : List Token → List Token
  | .text t :: tokens => .text (String.ofList run ++ t) :: tokens
  | tokens => .text (String.ofList run) :: tokens

theorem length_of_cut {p s a b : List Char} (h : Text.cut p s = some (a, b)) :
    b.length ≤ s.length := by
  rw [Text.eq_of_cut h]
  simp only [List.length_append]
  omega

theorem length_close_cut (f : Fence) (opener s : List Char) :
    (f.close opener s (Text.cut f.closer s)).2.length ≤ s.length := by
  cases h : Text.cut f.closer s with
  | none => exact Nat.le_refl _
  | some p =>
    have := length_of_cut h
    simp only [Fence.close]
    split <;> exact this

def lex : List Char → List Token
  | [] => []
  | c :: s =>
    match _h : opening c s with
    | .prose run rest => joinText run (lex rest)
    | .macros tokens rest => tokens ++ lex rest
    | .fence f opener rest =>
      let closed := f.close opener rest (Text.cut f.closer rest)
      closed.1 :: lex closed.2
termination_by s => s.length
decreasing_by
  all_goals
    have hr := length_rest_opening c s
    rw [_h] at hr
    simp only [Opening.rest] at hr
    simp only [List.length_cons]
  · omega
  · omega
  · have := length_close_cut f opener rest
    omega

/-- Tokens of a text, `absent` being fences whose closers do not occur in it. -/
def scan (absent : List Fence) : List Char → List Token
  | [] => []
  | c :: s =>
    match _h : opening c s with
    | .prose run rest => joinText run (scan absent rest)
    | .macros tokens rest => tokens ++ scan absent rest
    | .fence f opener rest =>
      if f ∈ absent then .unknown (String.ofList opener) :: scan absent rest
      else match _hc : Text.cut f.closer rest with
        | none => .unknown (String.ofList opener) :: scan (f :: absent) rest
        | some found =>
          let closed := f.close opener rest (some found)
          closed.1 :: scan absent closed.2
termination_by s => s.length
decreasing_by
  all_goals
    have hr := length_rest_opening c s
    rw [_h] at hr
    simp only [Opening.rest] at hr
    simp only [List.length_cons]
  · omega
  · omega
  · omega
  · omega
  · have := length_close_cut f opener rest
    rw [_hc] at this
    omega

/-- The tokens of a text. Parsing never fails: what is not understood stands for itself. -/
def parse (text : String) : List Token := scan [] text.toList

end Manuscript.Markup
