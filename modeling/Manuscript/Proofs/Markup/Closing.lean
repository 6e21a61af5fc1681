import Manuscript.Proofs.Markup.Dollar

/-! Where math between dollars ends. Behind a single dollar the closing dollar is one that no backslash
escapes. Behind two dollars the first pair of dollars closes, whatever stands before it, so that an
escaped dollar may be the first of the pair. -/
namespace Manuscript.Markup

open Manuscript.Text

variable {s : List Char} {o : Opening} {tex raw : String}

theorem Passed.even_slashesAtEnd (hs : Passed s) : Even (slashesAtEnd s) := by
  induction hs with
  | nil => exact Even.zero
  | plain hc _ ih =>
    rw [slashesAtEnd_cons_of_ne hc.1]
    exact ih
  | escaped c _ ih =>
    rw [← Nat.not_odd_iff_even, odd_slashesAtEnd_escaped, Nat.not_odd_iff_even]
    exact ih

/-! Two dollars -/

theorem Begins.display_math (hb : Begins s o) (ht : .math tex false raw ∈ o.tokens)
    (hdollar : raw.toList.head? = some '$') :
    raw.toList = '$' :: '$' :: (tex.toList ++ ['$', '$']) ∧
      ¬ ['$', '$'] <:+: tex.toList ++ ['$'] := by
  rcases hb.math ht with ⟨hinline, -, -⟩ | ⟨f, body, rest, after, hcut, -, hraw, htex⟩
  · cases hinline
  · rw [hraw] at hdollar
    obtain rfl := Fence.eq_dollars hdollar
    have hbody : tex.toList = body := htex
    rw [hbody, hraw]
    exact ⟨rfl, not_infix_of_cut (by decide) hcut⟩

theorem lex_display_math {tex : List Char} (hblank : allBlank tex = false)
    (hfirst : ¬ ['$', '$'] <:+: tex ++ ['$']) (rest : List Char) :
    lex ('$' :: '$' :: (tex ++ '$' :: '$' :: rest)) =
      .math (String.ofList tex) false (String.ofList ('$' :: '$' :: (tex ++ ['$', '$']))) ::
        lex rest := by
  have hcut : cut Fence.dollars.closer (tex ++ (Fence.dollars.closer ++ rest)) =
      some (tex, rest) := (cut_eq_some_iff (by decide)).mpr ⟨rfl, hfirst⟩
  exact lex_of_opens_fence (opens_fence .dollars) hcut hblank

/-- Math that dollars delimit: a single dollar is closed by a dollar that is not escaped, two dollars
are closed by the first pair of dollars. -/
theorem dollar_math_closer (text : String) :
    (∀ tex inline raw, .math tex inline raw ∈ parse text → raw.toList.head? = some '$' →
        (inline = true ∧ raw = "$" ++ tex ++ "$" ∧ Even (slashesAtEnd tex.toList)) ∨
          (inline = false ∧ raw = "$$" ++ tex ++ "$$" ∧ ¬ ['$', '$'] <:+: tex.toList ++ ['$'])) ∧
      ∀ tex : String, allBlank tex.toList = false → ¬ ['$', '$'] <:+: tex.toList ++ ['$'] →
        parse ("$$" ++ tex ++ "$$" ++ text) =
          .math tex false ("$$" ++ tex ++ "$$") :: parse text := by
  constructor
  · intro tex inline raw hmem hdollar
    rw [parse_eq_lex] at hmem
    obtain ⟨s, o, hb, ht⟩ := exists_begins_of_mem_lex hmem rfl
    cases inline with
    | true =>
      obtain ⟨hpassed, hraw⟩ := hb.dollar_math ht hdollar
      refine .inl ⟨rfl, ?_, hpassed.even_slashesAtEnd⟩
      rw [← String.toList_inj, hraw]
      simp
    | false =>
      obtain ⟨hraw, hfirst⟩ := hb.display_math ht hdollar
      refine .inr ⟨rfl, ?_, hfirst⟩
      rw [← String.toList_inj, hraw]
      simp
  · intro tex hblank hfirst
    have hread := lex_display_math hblank hfirst text.toList
    rw [parse_eq_lex, parse_eq_lex]
    have hsource : ("$$" ++ tex ++ "$$" ++ text).toList =
        '$' :: '$' :: (tex.toList ++ '$' :: '$' :: text.toList) := by simp
    have hraw : String.ofList ('$' :: '$' :: (tex.toList ++ ['$', '$'])) = "$$" ++ tex ++ "$$" := by
      rw [← String.toList_inj]
      simp
    rw [hsource, hread, hraw, String.ofList_toList]

theorem dollar_math_closer_escaped :
    (.math "a\\$b" true "$a\\$b$" ∈ parse "$a\\$b$" ∧ Even (slashesAtEnd "a\\$b".toList)) ∧
      parse "$$a\\$$b$" = .math "a\\" false "$$a\\$$" :: parse "b$" := by
  have hmem : .math "a\\$b" true "$a\\$b$" ∈ parse "$a\\$b$" := by decide +kernel
  refine ⟨⟨hmem, ?_⟩, (dollar_math_closer "b$").2 "a\\" (by decide) (by decide)⟩
  rcases (dollar_math_closer "$a\\$b$").1 _ _ _ hmem rfl with ⟨-, -, heven⟩ | ⟨hfalse, -, -⟩
  · exact heven
  · cases hfalse

/-- An escaped dollar closes display math if another dollar follows it. -/
theorem exists_escaped_dollar_closing :
    ∃ tex raw, .math tex false raw ∈ parse "$$a\\$$$" ∧ raw.toList.head? = some '$' ∧
      Odd (slashesAtEnd tex.toList) :=
  ⟨"a\\", "$$a\\$$", by decide +kernel, rfl, by decide⟩

end Manuscript.Markup
