import Manuscript.Proofs.Markup.Lossless

/-! Closers that are known to be absent. A closer missing from a text is missing from what is left
of it after any opening, so a search that is left out would have failed, and `scan` gives the tokens
of `lex`. -/
namespace Manuscript.Markup

variable {c : Char} {s run rest opener tex : List Char} {tokens : List Token} {f : Fence}

theorem lex_of_prose (h : opening c s = .prose run rest) :
    lex (c :: s) = joinText run (lex rest) := by
  rw [lex]
  split <;> simp_all

theorem lex_of_macros (h : opening c s = .macros tokens rest) :
    lex (c :: s) = tokens ++ lex rest := by
  rw [lex]
  split <;> simp_all

theorem lex_of_fence (h : opening c s = .fence f opener rest) :
    lex (c :: s) = (f.close opener rest (Text.cut f.closer rest)).1 ::
      lex (f.close opener rest (Text.cut f.closer rest)).2 := by
  rw [lex]
  split <;> simp_all

theorem cut_rest_eq_none {p : List Char} {o : Opening} (ho : opening c s = o)
    (h : Text.cut p (c :: s) = none) : Text.cut p o.rest = none := by
  have ht := taken_append_rest c s
  have hd := Text.cut_drop_eq_none h o.taken.length
  rw [← ht, ho, List.drop_left] at hd
  exact hd

theorem cut_close_eq_none {p : List Char} (f : Fence) (opener : List Char)
    (h : Text.cut p s = none) :
    Text.cut p (f.close opener s (Text.cut f.closer s)).2 = none := by
  cases hc : Text.cut f.closer s with
  | none => exact h
  | some found =>
    have hs := Text.eq_of_cut hc
    have hd := Text.cut_drop_eq_none h (found.1 ++ f.closer).length
    rw [hs, ← List.append_assoc, List.drop_left] at hd
    simp only [Fence.close]
    split <;> exact hd

theorem scan_eq_lex (absent : List Fence) (s : List Char)
    (habsent : ∀ f ∈ absent, Text.cut f.closer s = none) : scan absent s = lex s := by
  fun_induction scan absent s with
  | case1 => rw [lex]
  | case2 absent c s run rest h ih =>
    have hr : ∀ f ∈ absent, Text.cut f.closer rest = none :=
      fun f hf => cut_rest_eq_none h (habsent f hf)
    rw [lex_of_prose h, ih hr]
  | case3 absent c s tokens rest h ih =>
    have hr : ∀ f ∈ absent, Text.cut f.closer rest = none :=
      fun f hf => cut_rest_eq_none h (habsent f hf)
    rw [lex_of_macros h, ih hr]
  | case4 absent c s f opener rest h hf ih =>
    have hr : ∀ f ∈ absent, Text.cut f.closer rest = none :=
      fun f hf => cut_rest_eq_none h (habsent f hf)
    rw [lex_of_fence h, ih hr, hr f hf]
    rfl
  | case5 absent c s f opener rest h hf hc ih =>
    have hr : ∀ g ∈ f :: absent, Text.cut g.closer rest = none := by
      intro g hg
      rcases List.mem_cons.mp hg with rfl | hg
      · exact hc
      · exact cut_rest_eq_none h (habsent g hg)
    rw [lex_of_fence h, hc, ih hr]
    rfl
  | case6 absent c s f opener rest h hf found hc closed ih =>
    have hr : ∀ g ∈ absent, Text.cut g.closer closed.2 = none := by
      intro g hg
      have hg' : Text.cut g.closer rest = none := cut_rest_eq_none h (habsent g hg)
      have := cut_close_eq_none f opener hg'
      rwa [hc] at this
    rw [lex_of_fence h, hc, ih hr]

theorem parse_eq_lex (text : String) : parse text = lex text.toList :=
  scan_eq_lex [] _ (List.forall_mem_nil _)

end Manuscript.Markup
