/-! Commands and how they are written as arguments: a name, then options and at most one operand in
any order. After `--` everything is an operand. -/
namespace Manuscript

/-- Where a paper is loaded from; files given here count instead of those in the settings. -/
structure Command.Source where
  folder : String
  contents : Option String
  bibliography : Option String
  parallel : Bool
  deriving DecidableEq, Repr

inductive Command
  /-- Prints the assembled document, or writes it to a file. -/
  | assemble (source : Command.Source) (output : Option String) (pretty : Bool)
  /-- Reports findings and unresolved references. -/
  | check (source : Command.Source) (allowUnresolved json : Bool)
  /-- Prints the tokens of a text file, or of the input. -/
  | tokens (file : Option String) (pretty : Bool)
  deriving DecidableEq, Repr

namespace Command

inductive Stop
  | help
  | version
  | misuse
  deriving DecidableEq, Repr

structure Spec where
  long : String
  short : Option Char := none
  takesValue : Bool := false
  mayBeEmpty : Bool := false

structure Given where
  flags : List String := []
  values : List (String × String) := []
  operand : Option String := none

namespace Given

def flag (g : Given) (name : String) : Except Stop Given :=
  if g.flags.contains name then .error .misuse else .ok { g with flags := name :: g.flags }

def value (g : Given) (spec : Spec) (text : String) : Except Stop Given :=
  if (g.values.lookup spec.long).isSome || (text.isEmpty && !spec.mayBeEmpty) then .error .misuse
  else .ok { g with values := (spec.long, text) :: g.values }

def addOperand (g : Given) (text : String) : Except Stop Given :=
  if g.operand.isSome || text.isEmpty then .error .misuse else .ok { g with operand := some text }

def has (g : Given) (name : String) : Bool := g.flags.contains name

def value? (g : Given) (name : String) : Option String := g.values.lookup name

end Given

def looksLikeOption (arg : String) : Bool :=
  match arg.toList with
  | '-' :: _ :: _ => true
  | _ => false

inductive Shape
  | operand
  | endOfOptions
  | help
  | unknown
  | flag (name : String)
  | valued (spec : Spec) (attached : Option String)

def longShape (specs : List Spec) (text : List Char) : Shape :=
  let name := String.ofList (text.takeWhile (· != '='))
  let attached := match text.dropWhile (· != '=') with
    | [] => none
    | _ :: value => some (String.ofList value)
  match specs.find? fun s => s.long == name, attached with
  | some s, _ =>
    if s.takesValue then .valued s attached
    else if attached.isNone then .flag s.long else .unknown
  | none, none => if name = "help" then .help else .unknown
  | none, some _ => .unknown

def shortShape (specs : List Spec) (c : Char) (text : List Char) : Shape :=
  match specs.find? fun s => s.short == some c with
  | some s =>
    match text with
    | [] => .valued s none
    -- the sign may be left out
    | '=' :: value => .valued s (some (String.ofList value))
    | value => .valued s (some (String.ofList value))
  | none => if c = 'h' then .help else .unknown

def shape (specs : List Spec) (arg : String) : Shape :=
  match arg.toList with
  | ['-', '-'] => .endOfOptions
  | '-' :: '-' :: text => longShape specs text
  | '-' :: c :: text => shortShape specs c text
  | _ => .operand

def read (specs : List Spec) (g : Given) : List String → Except Stop Given
  | [] => .ok g
  | arg :: rest =>
    match shape specs arg with
    | .endOfOptions => rest.foldlM Given.addOperand g
    | .help => .error .help
    | .unknown => .error .misuse
    | .operand => do read specs (← g.addOperand arg) rest
    | .flag name => do read specs (← g.flag name) rest
    | .valued spec (some value) => do read specs (← g.value spec value) rest
    | .valued spec none =>
      match rest with
      | [] => .error .misuse
      | value :: rest =>
        if looksLikeOption value then .error .misuse
        else do read specs (← g.value spec value) rest

def sourceSpecs : List Spec :=
  [{ long := "toc", takesValue := true, mayBeEmpty := true },
    { long := "bibliography", takesValue := true, mayBeEmpty := true },
    { long := "no-parallel" }]

def assembleSpecs : List Spec :=
  sourceSpecs ++ [{ long := "output", short := some 'o', takesValue := true }, { long := "pretty" }]

def checkSpecs : List Spec :=
  sourceSpecs ++ [{ long := "allow-unresolved" }, { long := "json" }]

def tokensSpecs : List Spec := [{ long := "pretty" }]

def source (g : Given) : Except Stop Source :=
  match g.operand with
  | none => .error .misuse
  | some folder =>
    .ok ⟨folder, g.value? "toc", g.value? "bibliography", !g.has "no-parallel"⟩

def ofArguments : List String → Except Stop Command
  | [] => .error .misuse
  | "assemble" :: rest => do
    let g ← read assembleSpecs {} rest
    pure (.assemble (← source g) (g.value? "output") (g.has "pretty"))
  | "check" :: rest => do
    let g ← read checkSpecs {} rest
    pure (.check (← source g) (g.has "allow-unresolved") (g.has "json"))
  | "tokens" :: rest => do
    let g ← read tokensSpecs {} rest
    pure (.tokens g.operand (g.has "pretty"))
  | ["help"] => .error .help
  | ["help", name] =>
    .error (if ["assemble", "check", "tokens", "help"].contains name then .help else .misuse)
  | arg :: _ =>
    match arg.toList with
    | '-' :: 'h' :: _ => .error .help
    | '-' :: 'V' :: _ => .error .version
    | _ =>
      if arg = "--help" then .error .help
      else if arg = "--version" then .error .version
      else .error .misuse

end Command
end Manuscript
