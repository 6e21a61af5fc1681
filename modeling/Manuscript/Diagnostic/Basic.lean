import Manuscript.Text.Decimal

/-! Diagnostics: a severity and a title, and as far as they are known a code, a place, a problem,
details and hints. A diagnostic is made from its title by edits; an edit of a single field replaces
it, an edit of a list adds to its end. -/
namespace Manuscript

inductive Severity
  | error
  | warning
  | info
  | note
  deriving DecidableEq, Repr

inductive Message
  | plain (text : String)
  | markdown (text : String)
  deriving DecidableEq, Repr

def Message.text : Message → String
  | plain t => t
  | markdown t => t

inductive Detail.Kind
  | error
  | info
  | note
  deriving DecidableEq, Repr

structure Detail where
  kind : Detail.Kind
  content : Message
  deriving DecidableEq, Repr

/-- A place in the content: a file, a section of it, and the index of a block from zero, which is a
machine word. -/
structure Location where
  file : String
  sectionId : Option String := none
  block : Option UInt64 := none
  deriving DecidableEq, Repr

structure Diagnostic where
  severity : Severity
  title : String
  code : Option String := none
  problem : Option Message := none
  details : List Detail := []
  hints : List Message := []
  location : Option Location := none
  deriving DecidableEq, Repr

namespace Diagnostic

inductive Edit
  | code (text : String)
  | problem (m : Message)
  | detail (m : Message)
  | info (m : Message)
  | note (m : Message)
  | hint (m : Message)
  | location (l : Location)
  deriving DecidableEq, Repr

def addDetail (d : Diagnostic) (kind : Detail.Kind) (m : Message) : Diagnostic :=
  { d with details := d.details ++ [⟨kind, m⟩] }

def edit (d : Diagnostic) : Edit → Diagnostic
  | .code text => { d with code := some text }
  | .problem m => { d with problem := some m }
  | .detail m => d.addDetail .error m
  | .info m => d.addDetail .info m
  | .note m => d.addDetail .note m
  | .hint m => { d with hints := d.hints ++ [m] }
  | .location l => { d with location := some l }

def build (severity : Severity) (title : String) (edits : List Edit) : Diagnostic :=
  edits.foldl edit { severity, title }

def isError (d : Diagnostic) : Bool := d.severity = .error

end Diagnostic
end Manuscript
