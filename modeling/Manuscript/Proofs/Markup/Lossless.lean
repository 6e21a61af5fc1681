import Manuscript.Markup.Lexer

/-! Nothing of a text is lost in its tokens. Every opening covers the characters it was read from,
a fence is closed without dropping any, and so the sources of the tokens are the text, whatever
closers were taken to be absent. -/
namespace Manuscript.Markup

theorem source_append (as bs : List Token) : source (as ++ bs) = source as ++ source bs :=
  List.flatMap_append

theorem source_joinText (run : List Char) (tokens : List Token) :
    source (joinText run tokens) = run ++ source tokens := by
  cases tokens with
  | nil => simp [joinText, Token.raw]
  | cons t ts => cases t <;> simp [joinText, Token.raw]

theorem taken_append_rest (c : Char) (s : List Char) :
    (opening c s).taken ++ (opening c s).rest = c :: s := by
  obtain ⟨t, ht, hs⟩ := covers_opening c s
  rw [ht, List.cons_append, hs]

theorem taken_ne_nil (c : Char) (s : List Char) : (opening c s).taken ≠ [] := by
  obtain ⟨t, ht, _⟩ := covers_opening c s
  rw [ht]
  exact List.cons_ne_nil c t

theorem raw_close_append_rest (f : Fence) (opener s : List Char) :
    (f.close opener s (Text.cut f.closer s)).1.raw.toList ++
      (f.close opener s (Text.cut f.closer s)).2 = opener ++ s := by
  cases h : Text.cut f.closer s with
  | none => simp [Fence.close, Token.raw]
  | some found =>
    have hs := Text.eq_of_cut h
    simp only [Fence.close]
    split <;> simp [Token.raw, hs]

theorem raw_close_eq_append (f : Fence) (opener s : List Char)
    (found : Option (List Char × List Char)) :
    ∃ t, (f.close opener s found).1.raw.toList = opener ++ t := by
  cases found with
  | none => exact ⟨[], by simp [Fence.close, Token.raw]⟩
  | some found =>
    refine ⟨found.1 ++ f.closer, ?_⟩
    simp only [Fence.close]
    split <;> simp [Token.raw]

theorem source_scan (absent : List Fence) (s : List Char) : source (scan absent s) = s := by
  fun_induction scan absent s with
  | case1 => rfl
  | case2 absent c s run rest h ih =>
    have ht := taken_append_rest c s
    rw [h] at ht
    rw [source_joinText, ih]
    exact ht
  | case3 absent c s tokens rest h ih =>
    have ht := taken_append_rest c s
    rw [h] at ht
    rw [source_append, ih]
    exact ht
  | case4 absent c s f opener rest h hf ih =>
    have ht := taken_append_rest c s
    rw [h] at ht
    rw [source_cons, ih]
    simpa [Opening.taken, Opening.rest, Token.raw] using ht
  | case5 absent c s f opener rest h hf hc ih =>
    have ht := taken_append_rest c s
    rw [h] at ht
    rw [source_cons, ih]
    simpa [Opening.taken, Opening.rest, Token.raw] using ht
  | case6 absent c s f opener rest h hf found hc closed ih =>
    have ht := taken_append_rest c s
    have hclosed := raw_close_append_rest f opener rest
    rw [h] at ht
    rw [hc] at hclosed
    rw [source_cons, ih, hclosed]
    exact ht

theorem toList_unparse (tokens : List Token) : (unparse tokens).toList = source tokens := by
  simp [unparse, source, String.toList_join, List.flatMap_map]

/-- Every text is the concatenation of the raw texts of its tokens. -/
theorem unparse_parse (text : String) : unparse (parse text) = text := by
  apply String.toList_inj.mp
  rw [toList_unparse, parse, source_scan]

end Manuscript.Markup
