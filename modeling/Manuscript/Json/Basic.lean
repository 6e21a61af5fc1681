import Manuscript.Json.Double

/-! JSON values. Whole numbers of 64 bits stay apart from floating point numbers, which are held by
their bits; the fields of an object are sorted by key and each key occurs once. -/
namespace Manuscript

inductive Json.Number
  | int (value : Int)
  | double (bits : UInt64)
  deriving DecidableEq, Repr, Inhabited

inductive Json
  | null
  | bool (value : Bool)
  | number (value : Json.Number)
  | string (value : String)
  | array (items : List Json)
  | object (fields : List (String × Json))
  deriving Inhabited

namespace Json

inductive Kind
  | null
  | boolean
  | number
  | string
  | array
  | object
  deriving DecidableEq, Repr

def kind : Json → Kind
  | null => .null
  | bool _ => .boolean
  | number _ => .number
  | string _ => .string
  | array _ => .array
  | object _ => .object

def Kind.named : Kind → String
  | null => "null"
  | boolean => "a boolean"
  | number => "a number"
  | string => "a string"
  | array => "an array"
  | object => "an object"

def Number.text : Number → String
  | int n => (if n < 0 then "-" else "") ++ Text.decimal n.natAbs
  | double bits => Double.text bits

/-- Adds a field in key order; a key that is there already gets the new value. -/
def insertField (key : String) (value : α) : List (String × α) → List (String × α)
  | [] => [(key, value)]
  | (k, v) :: rest =>
    if key = k then (key, value) :: rest
    else if key < k then (key, value) :: (k, v) :: rest
    else (k, v) :: insertField key value rest

def ofFields (fields : List (String × Json)) : Json :=
  object (fields.foldl (fun done f => insertField f.1 f.2 done) [])

def field? (key : String) : Json → Option Json
  | object fields => (fields.find? fun f => f.1 == key).map Prod.snd
  | _ => none

def text? : Json → Option String
  | string s => some s
  | _ => none

def items? : Json → Option (List Json)
  | array items => some items
  | _ => none

def ofNat (n : Nat) : Json := number (.int n)

def ofOption (encode : α → Json) : Option α → Json
  | none => null
  | some a => encode a

end Json
end Manuscript
