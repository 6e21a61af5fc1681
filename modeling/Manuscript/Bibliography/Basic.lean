import Manuscript.Json.Basic

/-! The bibliography: entries numbered from one in the order they are given. A key that comes again
is passed over, so that its first entry keeps its number and text. -/
namespace Manuscript

structure Source where
  key : String
  text : String
  deriving DecidableEq, Repr, Inhabited

def Source.toJson (s : Source) : Json := .object [("key", .string s.key), ("text", .string s.text)]

structure Bibliography.Entry where
  key : String
  number : Nat
  text : String
  deriving DecidableEq, Repr, Inhabited

structure Bibliography where
  entries : List Bibliography.Entry
  deriving DecidableEq, Repr, Inhabited

namespace Bibliography

def anchor (key : String) : String := "citation-" ++ key

def Entry.anchor (e : Entry) : String := Bibliography.anchor e.key

def Entry.toJson (e : Entry) : Json := .object
  [("key", .string e.key), ("number", .ofNat e.number), ("text", .string e.text)]

def lookup? (b : Bibliography) (key : String) : Option Entry :=
  b.entries.find? fun e => e.key == key

def size (b : Bibliography) : Nat := b.entries.length

def isEmpty (b : Bibliography) : Bool := b.entries.isEmpty

def add (b : Bibliography) (s : Source) : Bibliography :=
  match b.lookup? s.key with
  | some _ => b
  | none => ⟨b.entries ++ [⟨s.key, b.size + 1, s.text⟩]⟩

def ofSources (sources : List Source) : Bibliography := sources.foldl add ⟨[]⟩

end Bibliography
end Manuscript
