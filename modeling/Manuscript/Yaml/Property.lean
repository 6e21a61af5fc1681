import Manuscript.Text.Decimal
import Manuscript.Text.Utf8
import Manuscript.Yaml.Scalar

/-! What may stand before a scalar: an anchor, under which it can be named again, and a tag. Also the
directives at the start of a text, which may give tags new handles. -/
namespace Manuscript.Yaml

abbrev Handles := List (String × String)

def defaultHandles : Handles := [("!", "!"), ("!!", "tag:yaml.org,2002:")]

inductive Property
  | anchor (name : String)
  | tag (name : String)
  deriving DecidableEq, Repr

def isWord (c : Char) : Bool := c.isAlphanum || c == '_' || c == '-'

def word (s : List Glyph) : String × List Glyph :=
  let w := s.takeWhile fun g => isWord g.char
  (String.ofList (w.map Glyph.char), s.drop w.length)

def name? (s : List Glyph) : Option (String × List Glyph) :=
  let (w, rest) := word s
  if w.isEmpty then none
  else if endsWord rest || rest.head?.any fun g => "?:,]\x7d%@`".toList.contains g.char then
    some (w, rest)
  else none

def isUri (c : Char) : Bool := isWord c || ";/?:@&=+$.!~*\x27()".toList.contains c

def uri (more : List Char) : List Glyph → Option (List UInt8 × List Glyph)
  | [] => some ([], [])
  | g :: s =>
    if g.char = '%' then
      match s with
      | a :: b :: t =>
        match hexValue? a.char, hexValue? b.char with
        | some h, some l => (uri more t).map fun p => (UInt8.ofNat (16 * h + l) :: p.1, p.2)
        | _, _ => none
      | _ => none
    else if isUri g.char || more.contains g.char then
      (uri more s).map fun p => (g.char.toNat.toUInt8 :: p.1, p.2)
    else some ([], g :: s)

def uriText (more : List Char) (s : List Glyph) : Option (String × List Glyph) := do
  let (bytes, rest) ← uri more s
  pure (← Text.ofUtf8? bytes, rest)

def tag? (handles : Handles) (s : List Glyph) : Option (String × List Glyph) :=
  match s with
  | ⟨'<', _, _⟩ :: s => do
    let (name, rest) ← uriText [',', '[', ']'] s
    match rest with
    | ⟨'>', _, _⟩ :: rest => if name.isEmpty then none else pure (name, rest)
    | _ => none
  | _ => do
    let (handle, s) := match word s with
      | (w, ⟨'!', _, _⟩ :: rest) => ("!" ++ w ++ "!", rest)
      | _ => ("!", s)
    let (name, rest) ← uriText [] s
    if name.isEmpty then if handle = "!" then pure ("!", rest) else none
    else pure ((← handles.lookup handle) ++ name, rest)

def startsProperty : List Glyph → Bool
  | [] => false
  | g :: _ => g.char == '&' || g.char == '!'

def property? (flow : Bool) (handles : Handles) : List Glyph → Option (Property × List Glyph)
  | ⟨'&', _, _⟩ :: s => (name? s).map fun p => (.anchor p.1, p.2)
  | ⟨'!', _, _⟩ :: s => do
    let (name, rest) ← tag? handles s
    if endsWord rest || (flow && rest.head?.any (·.char == ',')) then pure (.tag name, rest)
    else none
  | _ => none

/-- Up to one anchor and one tag, each with the glyphs from it on; the second only where `inside`
still holds. -/
def properties (flow : Bool) (handles : Handles) (inside : List Glyph → Bool) (s : List Glyph) :
    Option (List (List Glyph × Property) × List Glyph) := do
  if !startsProperty s then return ([], s)
  let (first, rest) ← property? flow handles s
  let rest ← next? flow true rest
  if !startsProperty rest || !inside rest || rest.head?.map Glyph.char = s.head?.map Glyph.char then
    return ([(s, first)], rest)
  let (second, after) ← property? flow handles rest
  pure ([(s, first), (rest, second)], ← next? flow true after)

/-- A line that starts with `%`, without that sign. Versions other than 1.1 and 1.2 are refused. -/
inductive Directive
  | version
  | handle (name meaning : String)

def endsLine (s : List Glyph) : Bool :=
  match s.dropWhile (isPad ·.char) with
  | [] => true
  | g :: _ => g.char == '#'

def version? (s : List Glyph) : Option Directive :=
  let major := s.takeWhile (Text.isDigit ·.char)
  match s.drop major.length with
  | ⟨'.', _, _⟩ :: s =>
    let minor := s.takeWhile (Text.isDigit ·.char)
    let number (l : List Glyph) := if l.length ≤ 9 then Text.natural? (l.map Glyph.char) else none
    if number major = some 1 ∧ (number minor = some 1 ∨ number minor = some 2) ∧
        endsLine (s.drop minor.length) = true then some .version
    else none
  | _ => none

def handle? (s : List Glyph) : Option Directive := do
  let (name, s) ← match s with
    | ⟨'!', _, _⟩ :: s =>
      match word s with
      | (w, ⟨'!', _, _⟩ :: rest) => some ("!" ++ w ++ "!", rest)
      | (w, rest) => if w.isEmpty then some ("!", rest) else none
    | _ => none
  if !(s.head?.any (isPad ·.char)) then none
  let (meaning, s) ← uriText [',', '[', ']'] (s.dropWhile (isPad ·.char))
  if meaning.isEmpty || !endsWord s || !endsLine s then none
  else pure (.handle name meaning)

def directive? (line : List Glyph) : Option Directive :=
  match word line with
  | ("YAML", s) => if endsWord s then version? (s.dropWhile (isPad ·.char)) else none
  | ("TAG", s) => if endsWord s then handle? (s.dropWhile (isPad ·.char)) else none
  | _ => none

structure Directives where
  version : Bool
  handles : Handles

def Directives.add (d : Directives) : Directive → Option Directives
  | .version => if d.version then none else some { d with version := true }
  | .handle name meaning =>
    if d.handles.any (·.1 == name) then none
    else some { d with handles := d.handles ++ [(name, meaning)] }

def Directives.isEmpty (d : Directives) : Bool := !d.version && d.handles.isEmpty

def directives (d : Directives) (s : List Glyph) : Option (Directives × List Glyph) :=
  match s with
  | ⟨'%', _, 0⟩ :: rest =>
    match (directive? (rest.takeWhile (!isBreak ·.char))).bind d.add,
        next? false false (rest.dropWhile (!isBreak ·.char)) with
    | some d, some after =>
      if _h : after.length ≤ rest.length then directives d after else none
    | _, _ => none
  | _ => some (d, s)
termination_by s.length
decreasing_by exact Nat.lt_succ_of_le _h

end Manuscript.Yaml
