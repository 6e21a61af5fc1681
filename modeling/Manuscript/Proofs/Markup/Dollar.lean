import Mathlib.Algebra.Ring.Parity
import Manuscript.Proofs.Markup.Grammar

/-! Math that a single dollar opens. It ends at the next dollar on the line that no backslash escapes;
the line itself ends only at a newline that no backslash escapes, so the math may hold escaped newlines
and no others. -/
namespace Manuscript.Markup

open Manuscript.Text

/-- How many backslashes a text ends in. With an odd number of them what comes next is escaped. -/
def slashesAtEnd (s : List Char) : Nat := (s.reverse.takeWhile (· == '\\')).length

variable {c : Char} {s a b : List Char} {o : Opening} {f : Fence} {tex raw : String} {inline : Bool}

theorem slashesAtEnd_cons_of_ne (hc : c ≠ '\\') (s : List Char) :
    slashesAtEnd (c :: s) = slashesAtEnd s := by
  have hstop : [c].takeWhile (· == '\\') = [] := by simp [hc]
  rw [slashesAtEnd, slashesAtEnd, List.reverse_cons, List.takeWhile_append, hstop]
  split
  · rename_i hall
    rw [List.append_nil, hall]
  · rfl

theorem odd_slashesAtEnd_escaped (c : Char) (s : List Char) :
    Odd (slashesAtEnd ('\\' :: c :: s)) ↔ Odd (slashesAtEnd s) := by
  by_cases hc : c = '\\'
  · have hpair : ['\\', '\\'].takeWhile (· == '\\') = ['\\', '\\'] := rfl
    rw [hc, slashesAtEnd, slashesAtEnd, List.reverse_cons, List.reverse_cons, List.append_assoc,
      List.singleton_append, List.takeWhile_append, hpair]
    split
    · rename_i hall
      rw [hall, List.length_append]
      exact Nat.odd_add.trans (iff_of_eq (by simp))
    · rfl
  · have hstop : [c, '\\'].takeWhile (· == '\\') = [] := by simp [hc]
    rw [slashesAtEnd, slashesAtEnd, List.reverse_cons, List.reverse_cons, List.append_assoc,
      List.singleton_append, List.takeWhile_append, hstop]
    split
    · rename_i hall
      rw [List.append_nil, hall]
    · rfl

theorem Passed.odd_slashesAtEnd (hs : Passed s) (he : s = a ++ '\n' :: b) :
    Odd (slashesAtEnd a) := by
  induction hs generalizing a with
  | nil => exact absurd he (by simp)
  | plain hc _ ih =>
    cases a with
    | nil => exact absurd (List.cons.inj he).1 hc.2.1
    | cons e a =>
      obtain ⟨rfl, htail⟩ := List.cons.inj he
      rw [slashesAtEnd_cons_of_ne hc.1]
      exact ih htail
  | escaped c _ ih =>
    cases a with
    | nil => exact absurd (List.cons.inj he).1 (by decide)
    | cons e a =>
      obtain ⟨rfl, htail⟩ := List.cons.inj he
      cases a with
      | nil => decide
      | cons e a =>
        obtain ⟨rfl, hrest⟩ := List.cons.inj htail
        rw [odd_slashesAtEnd_escaped]
        exact ih hrest

theorem close_eq_math {opener : List Char} {found : Option (List Char × List Char)}
    (ht : (f.close opener s found).1 = .math tex inline raw) :
    ∃ body rest, found = some (body, rest) ∧ inline = f.isInline ∧
      raw.toList = opener ++ (body ++ f.closer) ∧
      tex.toList = if f.keepsDelimiters then raw.toList else body := by
  cases found with
  | none => cases ht
  | some found =>
    simp only [Fence.close] at ht
    split at ht
    · cases ht
    · injection ht with htex hinline hraw
      refine ⟨found.1, found.2, rfl, hinline.symm, ?_, ?_⟩
      · rw [← hraw, String.toList_ofList]
      · rw [← htex, ← hraw, String.toList_ofList, String.toList_ofList]

theorem Fence.eq_dollars (hdollar : (f.opener.toList ++ s).head? = some '$') : f = .dollars := by
  cases f with
  | dollars => rfl
  | paren | bracket => cases hdollar
  | environment e => simp [Fence.opener] at hdollar

theorem Begins.math (hb : Begins s o) (ht : .math tex inline raw ∈ o.tokens) :
    (inline = true ∧ Passed tex.toList ∧ raw.toList = '$' :: (tex.toList ++ ['$'])) ∨
      ∃ (f : Fence) (body rest after : List Char), cut f.closer rest = some (body, after) ∧
        inline = f.isInline ∧ raw.toList = f.opener.toList ++ (body ++ f.closer) ∧
        tex.toList = if f.keepsDelimiters then raw.toList else body := by
  cases hb with
  | run | escape | bracket => cases ht
  | backslash | symbol | dollar | unclosed => exact absurd (List.mem_singleton.mp ht) (by simp)
  | fence f rest =>
    obtain ⟨body, after, hmath⟩ := close_eq_math (List.mem_singleton.mp ht).symm
    exact .inr ⟨f, body, rest, after, hmath⟩
  | inline hne htex rest =>
    have hmath := List.mem_singleton.mp ht
    unfold dollarToken at hmath
    split at hmath
    · cases hmath
    · cases hmath
      exact .inl ⟨rfl, by simpa using htex⟩
  | closed => cases Role.macroToken_of_mem _ ht

theorem Begins.dollar_math (hb : Begins s o) (ht : .math tex true raw ∈ o.tokens)
    (hdollar : raw.toList.head? = some '$') :
    Passed tex.toList ∧ raw.toList = '$' :: (tex.toList ++ ['$']) := by
  rcases hb.math ht with ⟨-, hmath⟩ | ⟨f, body, rest, after, -, hinline, hraw, -⟩
  · exact hmath
  · rw [hraw] at hdollar
    rw [Fence.eq_dollars hdollar] at hinline
    cases hinline

/-- Math opened by a single dollar holds no newline but escaped ones. -/
theorem dollar_math_newline_escaped {text tex raw : String} (h : .math tex true raw ∈ parse text)
    (hdollar : raw.toList.head? = some '$') :
    raw = "$" ++ tex ++ "$" ∧
      ∀ before after, raw.toList = before ++ '\n' :: after → Odd (slashesAtEnd before) := by
  rw [parse, scan_eq_lex [] _ (List.forall_mem_nil _)] at h
  obtain ⟨s, o, hb, ht⟩ := exists_begins_of_mem_lex h rfl
  obtain ⟨htex, hraw⟩ := hb.dollar_math ht hdollar
  refine ⟨by rw [← String.toList_inj, hraw]; simp, ?_⟩
  intro before after he
  rw [hraw] at he
  cases before with
  | nil => exact absurd (List.cons.inj he).1 (by decide)
  | cons c before =>
    obtain ⟨rfl, htail⟩ := List.cons.inj he
    rw [slashesAtEnd_cons_of_ne (by decide)]
    rcases List.append_eq_append_iff.mp htail with ⟨l, -, hl⟩ | ⟨l, hl, hnewline⟩
    · -- the newline is not the closing dollar
      cases l with
      | nil => exact absurd (List.cons.inj hl).1 (by decide)
      | cons d l => exact absurd (List.cons.inj hl).2 (by simp)
    · cases l with
      | nil => exact absurd (List.cons.inj hnewline).1 (by decide)
      | cons d l =>
        rw [← (List.cons.inj hnewline).1] at hl
        exact htex.odd_slashesAtEnd hl

theorem dollar_math_newline_escaped_once :
    .math "a\\\nb" true "$a\\\nb$" ∈ parse "$a\\\nb$" ∧ Odd (slashesAtEnd "$a\\".toList) := by
  have hmem : .math "a\\\nb" true "$a\\\nb$" ∈ parse "$a\\\nb$" := by decide +kernel
  exact ⟨hmem, (dollar_math_newline_escaped hmem rfl).2 "$a\\".toList "b$".toList rfl⟩

/-- An escaped newline does not end the line of inline math. -/
theorem exists_newline_in_dollar_math :
    ∃ tex raw, .math tex true raw ∈ parse "$a\\\nb$" ∧ raw.toList.head? = some '$' ∧
      '\n' ∈ raw.toList :=
  ⟨"a\\\nb", "$a\\\nb$", by decide +kernel, rfl, by decide⟩

end Manuscript.Markup
