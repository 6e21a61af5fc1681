/-! Macro arguments. An argument lies on one line, and the character that closes it starts within
`argumentLimit` bytes of its beginning, so it has fewer bytes than that. -/
namespace Manuscript.Markup

def argumentLimit : Nat := 256

def isLetter (c : Char) : Bool := (65 ≤ c.toNat && c.toNat ≤ 90) || (97 ≤ c.toNat && c.toNat ≤ 122)

def braced (budget depth : Nat) : List Char → Option (List Char × List Char)
  | [] => none
  | c :: s =>
    if budget = 0 ∨ c = '\n' then none
    else if c = '}' ∧ depth = 0 then some ([], s)
    else
      let depth := if c = '{' then depth + 1 else if c = '}' then depth - 1 else depth
      match braced (budget - c.utf8Size) depth s with
      | some (argument, rest) => some (c :: argument, rest)
      | none => none

def bracketed (budget : Nat) : List Char → Option (List Char × List Char)
  | [] => none
  | c :: s =>
    if budget = 0 ∨ c = '\n' ∨ c = '[' then none
    else if c = ']' then some ([], s)
    else match bracketed (budget - c.utf8Size) s with
      | some (argument, rest) => some (c :: argument, rest)
      | none => none

/-- Inline math after its dollar, up to the next dollar on the line; a backslash takes the character
after it along, whatever it is. -/
def untilDollar : List Char → Option (List Char × List Char)
  | [] => none
  | ['\\'] => none
  | '\\' :: c :: s =>
    match untilDollar s with
    | some (tex, rest) => some ('\\' :: c :: tex, rest)
    | none => none
  | c :: s =>
    if c = '\n' then none
    else if c = '$' then some ([], s)
    else match untilDollar s with
      | some (tex, rest) => some (c :: tex, rest)
      | none => none

def commaParts : List Char → List Char × List (List Char)
  | [] => ([], [])
  | c :: s =>
    let (part, more) := commaParts s
    if c = ',' then ([], part :: more) else (c :: part, more)

theorem eq_of_braced {budget depth : Nat} {s a r : List Char}
    (h : braced budget depth s = some (a, r)) : s = a ++ '}' :: r := by
  fun_induction braced budget depth s generalizing a with
  | case1 => cases h
  | case2 => cases h
  | case3 budget depth c s _ hc =>
    cases h
    simp [hc.1]
  | case4 =>
    rename_i he ih
    cases h
    simp [ih he]
  | case5 => cases h

theorem eq_of_bracketed {budget : Nat} {s a r : List Char}
    (h : bracketed budget s = some (a, r)) : s = a ++ ']' :: r := by
  fun_induction bracketed budget s generalizing a with
  | case1 => cases h
  | case2 => cases h
  | case3 budget s _ =>
    cases h
    rfl
  | case4 budget c s _ _ a' r' he ih =>
    cases h
    simp [ih he]
  | case5 => cases h

theorem eq_of_untilDollar {s a r : List Char} (h : untilDollar s = some (a, r)) :
    s = a ++ '$' :: r := by
  fun_induction untilDollar s generalizing a with
  | case1 => cases h
  | case2 => cases h
  | case3 c s a' r' he ih =>
    cases h
    simp [ih he]
  | case4 => cases h
  | case5 => cases h
  | case6 =>
    cases h
    rfl
  | case7 =>
    rename_i he ih
    cases h
    simp [ih he]
  | case8 => cases h

end Manuscript.Markup
