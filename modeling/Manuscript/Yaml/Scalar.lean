import Manuscript.Yaml.Glyph

/-! Scalars, plain and in quotes. A gap inside a scalar is kept if it is on one line; a single line
break in it counts as a space, and of several the first is left out. -/
namespace Manuscript.Yaml

inductive Style
  | plain
  | quoted
  | literal
  | folded
  deriving DecidableEq, Repr

structure Scalar where
  text : String
  style : Style
  tag : Option String
  deriving DecidableEq, Repr

def Scalar.empty : Scalar := ⟨"", .plain, none⟩

abbrev Reading := Option (List Char × List Glyph)

def Reading.after (chars : List Char) (r : Reading) : Reading :=
  r.map fun p => (chars ++ p.1, p.2)

def joined (gap : List Char) : List Char :=
  match gap.filter isBreak with
  | [] => gap
  | ['\n'] => [' ']
  | '\n' :: more => more
  | breaks => breaks

def isFlowMark (c : Char) : Bool := [',', '[', ']', '\x7b', '\x7d'].contains c

def startsPlain (flow : Bool) : List Glyph → Bool
  | [] => false
  | g :: s =>
    if g.char = '-' then !endsWord s
    else if g.char = '?' ∨ g.char = ':' then !flow && !endsWord s
    else !isGap g.char && !isFlowMark g.char &&
      !("#&*!|>\x27\"%@`".toList.contains g.char)

def plain (flow : Bool) (indent : Nat) (gap : List Char) : List Glyph → Reading
  | [] => some ([], [])
  | g :: s =>
    if isGap g.char then
      if g.char = '\t' ∧ g.column < indent ∧ gap.any isBreak = true then none
      else plain flow indent (gap ++ [g.char]) s
    else if gap ≠ [] ∧ (g.char = '#' ∨ (flow = false ∧ g.column < indent) ∨
        (marker? (g :: s)).isSome = true) then some ([], g :: s)
    else if g.char = ':' ∧ endsWord s = true then some ([], g :: s)
    else if flow = true ∧ isFlowMark g.char = true then some ([], g :: s)
    else if flow = true ∧ g.char = ':' ∧
        (s.head?.any fun n => isFlowMark n.char || n.char == '?') = true then none
    else (plain flow indent [] s).after (joined gap ++ [g.char])

def single (gap : List Char) : List Glyph → Reading
  | [] => none
  | g :: s =>
    if isGap g.char then single (gap ++ [g.char]) s
    else if (marker? (g :: s)).isSome then none
    else if g.char = '\x27' then
      match s with
      | [] => some (joined gap, [])
      | q :: t =>
        if q.char = '\x27' then (single [] t).after (joined gap ++ ['\x27'])
        else some (joined gap, q :: t)
    else (single [] s).after (joined gap ++ [g.char])

def escaped? : Char → Option Char
  | '0' => some (Char.ofNat 0)
  | 'a' => some (Char.ofNat 7)
  | 'b' => some (Char.ofNat 8)
  | 't' | '\t' => some '\t'
  | 'n' => some '\n'
  | 'v' => some (Char.ofNat 11)
  | 'f' => some (Char.ofNat 12)
  | 'r' => some '\r'
  | 'e' => some (Char.ofNat 27)
  | ' ' => some ' '
  | '"' => some '"'
  | '/' => some '/'
  | '\\' => some '\\'
  | 'N' => some '\u0085'
  | '_' => some '\u00A0'
  | 'L' => some '\u2028'
  | 'P' => some '\u2029'
  | _ => none

def moreDigits? : Char → Option Nat
  | 'x' => some 1
  | 'u' => some 3
  | 'U' => some 7
  | _ => none

def hexValue? (c : Char) : Option Nat :=
  let n := c.toNat
  if 48 ≤ n ∧ n ≤ 57 then some (n - 48)
  else if 65 ≤ n ∧ n ≤ 70 then some (n - 55)
  else if 97 ≤ n ∧ n ≤ 102 then some (n - 87)
  else none

/-- What the glyphs before have begun inside double quotes: a gap, which may come after an escaped
line break; an escape; or the digits of a code point. -/
inductive Pending
  | gap (afterBreak : Bool) (chars : List Char)
  | escape
  | code (more value : Nat)

def gapText (afterBreak : Bool) (gap : List Char) : List Char :=
  if afterBreak then gap.filter isBreak else joined gap

def double (pending : Pending) : List Glyph → Reading
  | [] => none
  | g :: s =>
    match pending with
    | .gap afterBreak gap =>
      if isGap g.char then double (.gap afterBreak (gap ++ [g.char])) s
      else if (marker? (g :: s)).isSome then none
      else if g.char = '"' then some (gapText afterBreak gap, s)
      else if g.char = '\\' then (double .escape s).after (gapText afterBreak gap)
      else (double (.gap false []) s).after (gapText afterBreak gap ++ [g.char])
    | .escape =>
      -- a break that is escaped joins two lines
      if isBreak g.char then double (.gap true []) s
      else match moreDigits? g.char, escaped? g.char with
        | some more, _ => double (.code more 0) s
        | none, some c => (double (.gap false []) s).after [c]
        | none, none => none
    | .code more value =>
      match hexValue? g.char, more with
      | none, _ => none
      | some d, more + 1 => double (.code more (16 * value + d)) s
      | some d, 0 =>
        if (16 * value + d).isValidChar then
          (double (.gap false []) s).after [Char.ofNat (16 * value + d)]
        else none

end Manuscript.Yaml
