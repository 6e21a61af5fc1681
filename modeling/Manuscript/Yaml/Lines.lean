import Manuscript.Text.Decimal
import Manuscript.Yaml.Scalar

/-! Scalars written as indented lines below a `|` or `>`. With `>` a single break between two lines
that do not start with a blank is a space. -/
namespace Manuscript.Yaml

def lines : List Glyph → List (List Glyph)
  | [] => []
  | g :: s =>
    if isBreak g.char then [g] :: lines s
    else match lines s with
      | [] => [[g]]
      | l :: ls => (g :: l) :: ls

inductive Chomp
  | strip
  | clip
  | keep
  deriving DecidableEq, Repr

def Chomp.apply (last more : List Char) : Chomp → List Char
  | strip => []
  | clip => last
  | keep => last ++ more

def chomp? (c : Char) : Option Chomp :=
  if c = '-' then some .strip else if c = '+' then some .keep else none

def depth? (c : Char) : Option Nat :=
  if Text.isDigit c && c != '0' then some (Text.digitValue c) else none

def marks? : List Char → Option (Chomp × Option Nat)
  | [] => some (.clip, none)
  | [a] =>
    match chomp? a, depth? a with
    | some c, _ => some (c, none)
    | none, some n => some (.clip, some n)
    | none, none => none
  | [a, b] =>
    match chomp? a, depth? b, depth? a, chomp? b with
    | some c, some n, _, _ => some (c, some n)
    | _, _, some n, some c => some (c, some n)
    | _, _, _, _ => none
  | _ => none

def leading (widest : Nat) (breaks : List Char) :
    List (List Glyph) → Option (Nat × List Char × List (List Glyph))
  | [] => some (widest, breaks, [])
  | l :: ls =>
    let spaces := (l.takeWhile (·.char == ' ')).length
    match l.drop spaces with
    | [] => some (max widest spaces, breaks, l :: ls)
    | g :: _ =>
      if g.char = '\t' then none
      else if isBreak g.char then leading (max widest spaces) (breaks ++ [g.char]) ls
      else some (max widest spaces, breaks, l :: ls)

/-- What has been read of an indented scalar: the break after the last line, the breaks of the blank
lines since then, and whether that line started with a blank. -/
structure Written where
  last : List Char
  more : List Char
  padded : Bool

def Written.separator (w : Written) (folded padded : Bool) : List Char :=
  if folded && w.last == ['\n'] && !w.padded && !padded then
    if w.more.isEmpty then [' '] else w.more
  else w.last ++ w.more

def indentedLines (folded : Bool) (chomp : Chomp) (indent : Nat) (w : Written) :
    List (List Glyph) → Option (List Char × List (List Glyph))
  | [] => some (chomp.apply w.last w.more, [])
  | l :: ls =>
    let spaces := ((l.take indent).takeWhile (·.char == ' ')).length
    match l.drop spaces with
    | [] => some (chomp.apply w.last w.more, [])
    | g :: s =>
      -- a tab does not indent
      if spaces < indent ∧ g.char = '\t' then none
      else if isBreak g.char then
        indentedLines folded chomp indent { w with more := w.more ++ [g.char] } ls
      else if spaces < indent then some (chomp.apply w.last w.more, l :: ls)
      else
        let chars := (g :: s).map Glyph.char
        let now : Written := ⟨chars.filter isBreak, [], isPad g.char⟩
        (indentedLines folded chomp indent now ls).map fun p =>
          (w.separator folded now.padded ++ chars.filter (!isBreak ·) ++ p.1, p.2)

def indented (folded : Bool) (column : Nat) (s : List Glyph) : Reading := do
  let marks := s.takeWhile fun g => Text.isDigit g.char || g.char == '+' || g.char == '-'
  let (chomp, depth) ← marks? (marks.map Glyph.char)
  let s := (s.drop marks.length).dropWhile (isPad ·.char)
  let s := if (s.head?.any (·.char == '#')) then s.dropWhile (!isBreak ·.char) else s
  let body ← match s with
    | [] => some []
    | g :: s => if isBreak g.char then some (lines s) else none
  -- without a depth the widest of the blank lines and the first other one gives it
  let (indent, breaks, body) ← match depth with
    | some n => some (column + n, [], body)
    | none => (leading 0 [] body).map fun p => (max p.1 (column + 1), p.2)
  let (text, left) ← indentedLines folded chomp indent ⟨[], breaks, false⟩ body
  pure (text, left.flatten)

end Manuscript.Yaml
