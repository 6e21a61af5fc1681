import Manuscript.Yaml.Lines
import Manuscript.Yaml.Property

/-! Texts that hold one mapping from scalars to scalars, as indented lines or between braces. A text
that holds anything else has no fields here; a text that holds nothing has an empty row of them. -/
namespace Manuscript.Yaml

inductive Frame
  | braces
  | field (column : Nat)
  deriving DecidableEq, Repr

def Frame.flow : Frame → Bool
  | braces => true
  | field _ => false

def Frame.holds : Frame → List Glyph → Bool
  | _, [] => false
  | braces, g :: _ => g.char != ',' && g.char != '\x7d' && g.char != ':'
  | field column, g :: _ => column < g.column

abbrev Anchors := List (String × Scalar)

structure Parsed (α : Type) where
  value : α
  anchors : Anchors
  rest : List Glyph

def content (frame : Frame) (tag : Option String) (s : List Glyph) :
    Option (Scalar × List Glyph) :=
  let named (style : Style) (r : Reading) : Option (Scalar × List Glyph) :=
    r.map fun p => (⟨String.ofList p.1, style, tag⟩, p.2)
  match s with
  | ⟨'"', _, _⟩ :: s => named .quoted (double (.gap false []) s)
  | ⟨'\x27', _, _⟩ :: s => named .quoted (single [] s)
  | _ =>
    if startsPlain frame.flow s && (marker? s).isNone then
      match frame with
      | .braces => named .plain (plain true 0 [] s)
      | .field column => named .plain (plain false (column + 1) [] s)
    else match frame, s with
      | .field column, ⟨'|', _, _⟩ :: s => named .literal (indented false column s)
      | .field column, ⟨'>', _, _⟩ :: s => named .folded (indented true column s)
      | _, _ => none

def scalarHere (handles : Handles) (frame : Frame) (anchors : Anchors) (s : List Glyph) :
    Option (Parsed Scalar) :=
  match s with
  | ⟨'*', _, _⟩ :: s => do
    let (name, rest) ← name? s
    pure ⟨← anchors.lookup name, anchors, rest⟩
  | _ => do
    let (found, s) ← properties frame.flow handles frame.holds s
    let tag := found.findSome? fun p => match p.2 with
      | .tag name => some name
      | .anchor _ => none
    let anchor := found.findSome? fun p => match p.2 with
      | .tag _ => none
      | .anchor name => some name
    -- an anchor or a tag may stand before nothing
    let (scalar, rest) ←
      if !found.isEmpty && !frame.holds s then some ({ Scalar.empty with tag }, s)
      else content frame tag s
    pure ⟨scalar, (anchor.map fun name => (name, scalar)).toList ++ anchors, rest⟩

def scalarAfter (handles : Handles) (frame : Frame) (tabs : Bool) (anchors : Anchors)
    (s : List Glyph) : Option (Parsed Scalar) := do
  let s ← next? frame.flow tabs s
  if frame.holds s then scalarHere handles frame anchors s else pure ⟨.empty, anchors, s⟩

/-- Does a field's name end here? Name and colon are on one line, not too far apart. -/
def endsName (start colon : Glyph) : Bool :=
  colon.char == ':' && colon.line == start.line && colon.column ≤ start.column + 1024

abbrev Field := Scalar × Scalar

def lineField (handles : Handles) (anchors : Anchors) (s : List Glyph) : Option (Parsed Field) :=
  match s with
  | [] => none
  | g :: rest => do
    let frame := Frame.field g.column
    -- a name after a question mark may be on several lines, and the value may be left out
    if g.char = '?' ∧ endsWord rest = true then
      let key ← scalarAfter handles frame false anchors rest
      let after ← next? false true key.rest
      match after with
      | c :: rest =>
        if c.char = ':' ∧ c.column = g.column ∧ endsWord rest = true then
          let value ← scalarAfter handles frame false key.anchors rest
          pure ⟨(key.value, value.value), value.anchors, value.rest⟩
        else pure ⟨(key.value, .empty), key.anchors, after⟩
      | [] => pure ⟨(key.value, .empty), key.anchors, []⟩
    else
      let key ← scalarHere handles frame anchors s
      match ← next? false true key.rest with
      | c :: rest =>
        if endsName g c && endsWord rest then
          let value ← scalarAfter handles frame true key.anchors rest
          pure ⟨(key.value, value.value), value.anchors, value.rest⟩
        else none
      | [] => none

def lineFields (handles : Handles) (column : Nat) (anchors : Anchors) (s : List Glyph) :
    Option (List Field × List Glyph) :=
  match lineField handles anchors s with
  | none => none
  | some field =>
    match next? false true field.rest with
    | none => none
    | some [] => some ([field.value], [])
    | some (g :: rest) =>
      if g.column < column ∨ (marker? (g :: rest)).isSome = true then
        some ([field.value], g :: rest)
      -- a field takes at least a glyph; the comparison is there for the recursion
      else if g.column = column ∧ rest.length + 1 < s.length then
        (lineFields handles column field.anchors (g :: rest)).map fun p =>
          (field.value :: p.1, p.2)
      else none
termination_by s.length

def braceField (handles : Handles) (anchors : Anchors) (s : List Glyph) : Option (Parsed Field) :=
  match s with
  | [] => none
  | g :: rest => do
    let marked := g.char = '?'
    let key ← scalarAfter handles .braces true anchors (if marked then rest else s)
    let after ← next? true true key.rest
    match after with
    | c :: rest =>
      if c.char = ':' then
        if marked || endsName g c then
          let value ← scalarAfter handles .braces true key.anchors rest
          pure ⟨(key.value, value.value), value.anchors, value.rest⟩
        else none
      else pure ⟨(key.value, .empty), key.anchors, after⟩
    | [] => none

def braceFields (handles : Handles) (anchors : Anchors) (s : List Glyph) :
    Option (List Field × List Glyph) :=
  match next? true true s with
  | some (⟨'\x7d', _, _⟩ :: rest) => some ([], rest)
  | some s' =>
    match braceField handles anchors s' with
    | none => none
    | some field =>
      match next? true true field.rest with
      | some (⟨'\x7d', _, _⟩ :: rest) => some ([field.value], rest)
      | some (⟨',', _, _⟩ :: rest) =>
        if rest.length < s.length then
          (braceFields handles field.anchors rest).map fun p => (field.value :: p.1, p.2)
        else none
      | _ => none
  | none => none
termination_by s.length

def ends (s : List Glyph) : Bool :=
  match next? false true s with
  | none => false
  | some [] => true
  | some (g :: rest) =>
    match marker? (g :: rest) with
    | some ('.', after) => if after.length < s.length then ends after else false
    | _ => false
termination_by s.length

/-- The fields of a document. Properties on lines of their own belong to the mapping, those on the
line of the first field to its name, which may not be on the line `barred`. -/
def document (handles : Handles) (barred : Option Nat) (s : List Glyph) : Option (List Field) := do
  let (found, s) ← properties false handles (fun _ => true) s
  let (fields, rest) ←
    if s.isEmpty || (marker? s).isSome then some ([], s)
    else match s with
      | ⟨'\x7b', _, _⟩ :: s => braceFields handles [] s
      | _ =>
        let line := s.head?.map Glyph.line
        let start := ((found.map Prod.fst).find? fun p => p.head?.map Glyph.line = line).getD s
        if barred.isSome ∧ barred = line then none
        else match start.head? with
          | some g => lineFields handles g.column [] start
          | none => none
  if ends rest then some fields else none

def fields? (text : String) : Option (List Field) := do
  let s ← next? false false (← glyphs? text)
  let (found, s) ← directives ⟨false, []⟩ s
  let handles := found.handles ++ defaultHandles
  match marker? s with
  | some ('-', rest) =>
    document handles (s.head?.map Glyph.line) (← next? false true rest)
  | some _ => none
  -- directives stand before a marker
  | none => if found.isEmpty then document handles none s else none

end Manuscript.Yaml
