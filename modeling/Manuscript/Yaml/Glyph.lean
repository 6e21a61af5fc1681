/-! The characters of a YAML text with the places they stand at, and what separates its words. -/
namespace Manuscript.Yaml

/-- A character and its place; lines and columns count from zero. -/
structure Glyph where
  char : Char
  line : Nat
  column : Nat
  deriving DecidableEq, Repr

def isAllowed (c : Char) : Bool :=
  let n := c.toNat
  n == 9 || n == 10 || n == 13 || (0x20 ≤ n && n ≤ 0x7E) || n == 0x85 ||
    (0xA0 ≤ n && n ≤ 0xFFFD) || 0x10000 ≤ n

/-- Every line break becomes a line feed, except the two separators of Unicode. -/
def feeds : List Char → List Char
  | [] => []
  | '\r' :: '\n' :: s => '\n' :: feeds s
  | c :: s => (if c = '\r' ∨ c = '\u0085' then '\n' else c) :: feeds s

def isBreak (c : Char) : Bool := c == '\n' || c == '\u2028' || c == '\u2029'

def isPad (c : Char) : Bool := c == ' ' || c == '\t'

def isGap (c : Char) : Bool := isPad c || isBreak c

def glyphsFrom (line column : Nat) : List Char → List Glyph
  | [] => []
  | c :: s =>
    ⟨c, line, column⟩ ::
      if isBreak c then glyphsFrom (line + 1) 0 s else glyphsFrom line (column + 1) s

def glyphs? (text : String) : Option (List Glyph) :=
  if text.toList.all isAllowed then
    match feeds text.toList with
    | '\uFEFF' :: s => some (glyphsFrom 0 1 s)
    | s => some (glyphsFrom 0 0 s)
  else none

def endsWord : List Glyph → Bool
  | [] => true
  | g :: _ => isGap g.char

/-- The mark that begins (`'-'`) or ends (`'.'`) a document, three times at the start of a line. -/
def marker? : List Glyph → Option (Char × List Glyph)
  | a :: b :: c :: s =>
    if a.column = 0 ∧ (a.char = '-' ∨ a.char = '.') ∧ b.char = a.char ∧ c.char = a.char ∧
        endsWord s = true then some (a.char, s)
    else none
  | _ => none

def skipFrom (flow tabs comment : Bool) : List Glyph → List Glyph
  | [] => []
  | g :: s =>
    if isBreak g.char then skipFrom flow flow false s
    else if comment || g.char == ' ' || (tabs && g.char == '\t') then skipFrom flow tabs comment s
    else if g.char = '#' then skipFrom flow tabs true s
    else g :: s

/-- What is left after gaps and comments. Outside braces a tab may stand only before the end of the
line that something was read from, and not where a line begins. -/
def next? (flow tabs : Bool) (s : List Glyph) : Option (List Glyph) :=
  match skipFrom flow tabs false s with
  | [] => some []
  | g :: s => if g.char = '\t' then none else some (g :: s)

end Manuscript.Yaml
