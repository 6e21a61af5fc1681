import Manuscript.Heading.Level
import Manuscript.Json.Basic
import Manuscript.Text.Quoted

/-! Reading the fields of records out of JSON values, and what can be wrong with their shape. -/
namespace Manuscript.Record

inductive Kind
  | contentsEntry
  | sectionRecord
  deriving DecidableEq, Repr

def Kind.name : Kind → String
  | contentsEntry => "struct TocEntryRecord"
  | sectionRecord => "struct SectionRecord"

def Kind.size : Kind → Nat
  | contentsEntry => 4
  | sectionRecord => 5

inductive Expected
  | text
  | list
  | record (kind : Kind)
  deriving DecidableEq, Repr

def Expected.words : Expected → String
  | text => "a string"
  | list => "a sequence"
  | record kind => kind.name

inductive ShapeError
  | wrongType (found : Json) (expected : Expected)
  | missingField (name : String)
  | duplicateField (name : String)
  | tooFew (count : Nat) (kind : Kind)
  | tooMany (count : Nat)
  | badLevel

def describe : Json → String
  | .null => "null"
  | .bool b => "boolean `" ++ (if b then "true" else "false") ++ "`"
  | .number (.int n) => "integer `" ++ (Json.Number.int n).text ++ "`"
  | .number (.double bits) => "floating point `" ++ Json.Double.text bits ++ "`"
  | .string s => "string " ++ Text.quote s
  | .array _ => "sequence"
  | .object _ => "map"

def ShapeError.message : ShapeError → String
  | wrongType found expected => "invalid type: " ++ describe found ++ ", expected " ++ expected.words
  | missingField name => "missing field `" ++ name ++ "`"
  | duplicateField name => "duplicate field `" ++ name ++ "`"
  | tooFew count kind =>
    "invalid length " ++ Text.decimal count ++ ", expected " ++ kind.name ++ " with " ++
      Text.decimal kind.size ++ " elements"
  | tooMany count =>
    "invalid length " ++ Text.decimal count ++ ", expected fewer elements in array"
  | badLevel => "data did not match any variant of untagged enum LevelValue"

abbrev Shaped (α : Type) := Except ShapeError α

inductive Level
  | number (n : UInt32)
  | text (s : String)
  deriving DecidableEq, Repr

def Level.value? : Level → Option UInt32
  | number n => some n
  | text s => Manuscript.Level.parse? s

def Level.shown : Level → String
  | number n => Text.decimal n.toNat
  | text s => s

def asText : Json → Shaped String
  | .string s => .ok s
  | v => .error (.wrongType v .text)

def asList : Json → Shaped (List Json)
  | .array items => .ok items
  | v => .error (.wrongType v .list)

def optional (read : Json → Shaped α) : Json → Shaped (Option α)
  | .null => .ok none
  | v => (read v).map some

def asLevel : Json → Shaped Level
  | .number (.int n) =>
    if 0 ≤ n ∧ n.toNat < UInt32.size then .ok (.number (UInt32.ofNat n.toNat)) else .error .badLevel
  | .string s => .ok (.text s)
  | _ => .error .badLevel

def once (name : String) (old : Option α) (new : Shaped α) : Shaped (Option α) :=
  match old with
  | some _ => .error (.duplicateField name)
  | none => new.map some

def required (name : String) : Option α → Shaped α
  | some a => .ok a
  | none => .error (.missingField name)

/-- The next element of a record written as an array, with a stand-in if there is none. -/
def nextOr (missing : Shaped α) (read : Json → Shaped α) : List Json → Shaped (α × List Json)
  | [] => missing.map (·, [])
  | v :: rest => (read v).map (·, rest)

def noMore (count : Nat) : List Json → Shaped Unit
  | [] => .ok ()
  | _ :: _ => .error (.tooMany count)

end Manuscript.Record
