import Manuscript.Proofs.Markup.Argument

/-! How far arguments and inline math extend. Each reader accepts exactly the texts described here, up
to the closer, and what comes after the closer does not matter to it. -/
namespace Manuscript.Markup

open Manuscript.Text

variable {budget depth : Nat} {c : Char} {a s rest tex : List Char}

def Nests : Nat → List Char → Prop
  | depth, [] => depth = 0
  | depth, c :: s =>
    if c = '{' then Nests (depth + 1) s
    else if c = '}' then 0 < depth ∧ Nests (depth - 1) s
    else Nests depth s

theorem nests_open : Nests depth ('{' :: s) ↔ Nests (depth + 1) s := by simp [Nests]

theorem nests_close : Nests depth ('}' :: s) ↔ 0 < depth ∧ Nests (depth - 1) s := by simp [Nests]

theorem nests_cons (hopen : c ≠ '{') (hclose : c ≠ '}') : Nests depth (c :: s) ↔ Nests depth s := by
  simp [Nests, hopen, hclose]

structure BraceArgument (a : List Char) : Prop where
  short : byteLength a < argumentLimit
  line : '\n' ∉ a
  nests : Nests 0 a

structure BracketArgument (a : List Char) : Prop where
  short : byteLength a < argumentLimit
  flat : ∀ c ∈ a, c ≠ '\n' ∧ c ≠ '[' ∧ c ≠ ']'

/-- What may stand between two dollars: a backslash takes any character along. -/
inductive Passed : List Char → Prop
  | nil : Passed []
  | plain {c : Char} {s : List Char} (hc : c ≠ '\\' ∧ c ≠ '\n' ∧ c ≠ '$') :
      Passed s → Passed (c :: s)
  | escaped (c : Char) {s : List Char} : Passed s → Passed ('\\' :: c :: s)

/-! Brace groups -/

theorem braced_sound (h : braced budget depth s = some (a, rest)) :
    byteLength a < budget ∧ '\n' ∉ a ∧ Nests depth a := by
  fun_induction braced budget depth s generalizing a with
  | case1 => cases h
  | case2 => cases h
  | case3 budget depth c s hgo hclose =>
    cases h
    rw [not_or] at hgo
    exact ⟨Nat.pos_of_ne_zero hgo.1, List.not_mem_nil, hclose.2⟩
  | case4 budget depth c s hgo hclose deeper a' rest' he =>
    rename_i ih
    cases h
    rw [not_or] at hgo
    obtain ⟨hlen, hline, hnests⟩ := ih he
    refine ⟨?_, ?_, ?_⟩
    · rw [byteLength_cons]
      omega
    · exact List.not_mem_cons_of_ne_of_not_mem (Ne.symm hgo.2) hline
    · by_cases hopen : c = '{'
      · subst hopen
        exact nests_open.mpr hnests
      · by_cases hshut : c = '}'
        · subst hshut
          have hdepth : depth ≠ 0 := fun h0 => hclose ⟨rfl, h0⟩
          exact nests_close.mpr ⟨Nat.pos_of_ne_zero hdepth, hnests⟩
        · simp only [deeper, if_neg hopen, if_neg hshut] at hnests
          exact (nests_cons hopen hshut).mpr hnests
  | case5 => cases h

theorem braced_complete (hlen : byteLength a < budget) (hline : '\n' ∉ a) (hnests : Nests depth a) :
    braced budget depth (a ++ '}' :: rest) = some (a, rest) := by
  induction a generalizing budget depth with
  | nil =>
    have hbudget : budget ≠ 0 := Nat.ne_of_gt hlen
    have hdepth : depth = 0 := hnests
    simp [braced, hbudget, hdepth]
  | cons c a ih =>
    rw [byteLength_cons] at hlen
    obtain ⟨hc, hline'⟩ := not_or.mp (mt List.mem_cons.mpr hline)
    have hbudget : budget ≠ 0 := by omega
    have hrest : byteLength a < budget - c.utf8Size := by omega
    by_cases hopen : c = '{'
    · subst hopen
      simp [braced, hbudget, ih hrest hline' (nests_open.mp hnests)]
    · by_cases hshut : c = '}'
      · subst hshut
        obtain ⟨hdepth, hnests⟩ := nests_close.mp hnests
        simp [braced, hbudget, Nat.ne_of_gt hdepth, ih hrest hline' hnests]
      · have hnests := (nests_cons hopen hshut).mp hnests
        simp [braced, hbudget, Ne.symm hc, hopen, hshut, ih hrest hline' hnests]

theorem braced_eq_some_iff : braced argumentLimit 0 s = some (a, rest) ↔
    s = a ++ '}' :: rest ∧ BraceArgument a := by
  constructor
  · intro h
    obtain ⟨hlen, hline, hnests⟩ := braced_sound h
    exact ⟨eq_of_braced h, hlen, hline, hnests⟩
  · rintro ⟨rfl, ha⟩
    exact braced_complete ha.short ha.line ha.nests

/-! Bracket arguments -/

theorem bracketed_sound (h : bracketed budget s = some (a, rest)) :
    byteLength a < budget ∧ ∀ c ∈ a, c ≠ '\n' ∧ c ≠ '[' ∧ c ≠ ']' := by
  fun_induction bracketed budget s generalizing a with
  | case1 => cases h
  | case2 => cases h
  | case3 budget s hgo =>
    cases h
    rw [not_or] at hgo
    exact ⟨Nat.pos_of_ne_zero hgo.1, List.forall_mem_nil _⟩
  | case4 budget c s hgo hclose a' rest' he ih =>
    cases h
    simp only [not_or] at hgo
    obtain ⟨hlen, hflat⟩ := ih he
    refine ⟨?_, List.forall_mem_cons.mpr ⟨⟨hgo.2.1, hgo.2.2, hclose⟩, hflat⟩⟩
    rw [byteLength_cons]
    omega
  | case5 => cases h

theorem bracketed_eq_some_iff : bracketed argumentLimit s = some (a, rest) ↔
    s = a ++ ']' :: rest ∧ BracketArgument a := by
  constructor
  · intro h
    obtain ⟨hlen, hflat⟩ := bracketed_sound h
    exact ⟨eq_of_bracketed h, hlen, hflat⟩
  · rintro ⟨rfl, ha⟩
    exact bracketed_append ha.short ha.flat

/-! Inline math -/

theorem untilDollar_sound (h : untilDollar s = some (tex, rest)) : Passed tex := by
  fun_induction untilDollar s generalizing tex with
  | case1 => cases h
  | case2 => cases h
  | case3 c s tex' rest' he ih =>
    cases h
    exact .escaped c (ih he)
  | case4 => cases h
  | case5 => cases h
  | case6 =>
    cases h
    exact .nil
  | case7 c s hlast hescape hline hdollar tex' rest' he ih =>
    cases h
    refine .plain ⟨?_, hline, hdollar⟩ (ih he)
    rintro rfl
    cases s with
    | nil => exact hlast rfl rfl
    | cons d s => exact hescape d s rfl rfl
  | case8 => cases h

theorem untilDollar_complete (h : Passed tex) :
    untilDollar (tex ++ '$' :: rest) = some (tex, rest) := by
  induction h with
  | nil => simp [untilDollar]
  | plain hc _ ih => simp [untilDollar, hc, ih]
  | escaped c _ ih => simp [untilDollar, ih]

theorem untilDollar_eq_some_iff : untilDollar s = some (tex, rest) ↔
    s = tex ++ '$' :: rest ∧ Passed tex := by
  constructor
  · intro h
    exact ⟨eq_of_untilDollar h, untilDollar_sound h⟩
  · rintro ⟨rfl, htex⟩
    exact untilDollar_complete htex

end Manuscript.Markup
