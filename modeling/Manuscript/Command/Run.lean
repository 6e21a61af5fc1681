import Manuscript.Command.Arguments
import Manuscript.Diagnostic.Render
import Manuscript.Disk.Tree
import Manuscript.Json.Printer
import Manuscript.Paper

/-! What the commands do. A run sees a disk and the bytes of its input and says what to print, with
which exit code, and what to write; it changes nothing itself. -/
namespace Manuscript.Command

structure Failure where
  problem : String
  cause : String
  deriving DecidableEq, Repr

def Failure.text (f : Failure) : String :=
  "Error: " ++ f.problem ++ "\n\nCaused by:\n    " ++ f.cause

inductive Outcome
  | printed (text : String) (code : Nat)
  | written (path text : String)
  | failed (failure : Failure)
  deriving DecidableEq, Repr

structure Loading where
  paper : Paper
  findings : List Finding
  document : Document

def Source.over (c : Source) (s : Settings) : Settings :=
  { s with
    contents := c.contents.getD s.contents
    bibliography := c.bibliography.getD s.bibliography
    parallel := s.parallel && c.parallel }

def settingsFailure (folder : String) (e : Settings.LoadError) : Failure :=
  ⟨"Failed to read configuration in " ++ folder, match e with
    | .unreadable path why => (RecordError.unreadable path why).message
    | .notSettings => "invalid configuration"⟩

def contentFailure (folder : String) (e : Paper.Unreadable) : Failure :=
  ⟨"Failed to load content from " ++ folder, (RecordError.unreadable e.path e.why).message⟩

def load (d : Disk) (c : Source) : Except Failure Loading := do
  let s ← (Settings.load d c.folder).mapError (settingsFailure c.folder)
  let l ← (Paper.load d c.folder (c.over s)).mapError (contentFailure c.folder)
  pure ⟨l.value, l.findings, l.value.document⟩

def shown (pretty : Bool) (v : Json) : String := (if pretty then v.pretty else v.compact) ++ "\n"

def assembled (l : Loading) : Json := .object <|
  (l.paper.about.map fun m => ("paper", m.toJson)).toList ++
    [("toc_derived", .bool l.paper.derived), ("document", l.document.toJson)]

def diagnostics (l : Loading) : List Diagnostic :=
  (l.findings ++ l.document.findings).map Finding.diagnostic

def summary (l : Loading) : String :=
  Text.decimal l.document.sections.length ++ " sections, " ++
    Text.decimal l.document.bibliography.length ++ " bibliography entries, " ++
    Text.decimal l.findings.length ++ " degraded records, " ++
    Text.decimal l.document.unresolved.length ++ " unresolved references"

def report (json : Bool) (l : Loading) : String :=
  if json then shown false (.array ((diagnostics l).map Diagnostic.toJson))
  else String.join ((diagnostics l).map fun d => d.text ++ "\n\n") ++ summary l ++ "\n"

def passes (allowUnresolved : Bool) (l : Loading) : Bool :=
  l.findings.isEmpty && (allowUnresolved || l.document.unresolved.isEmpty)

def tokensOf (pretty : Bool) (text : String) : String :=
  shown pretty (.array ((Markup.parse text).map Markup.Token.toJson))

def textFile? (file : Option String) : Option String := file.filter (· != "-")

def readsInput : Command → Bool
  | tokens file _ => (textFile? file).isNone
  | _ => false

def run (d : Disk) (input : List UInt8) : Command → Outcome
  | assemble c output pretty =>
    match load d c with
    | .error f => .failed f
    | .ok l =>
      let text := shown pretty (assembled l)
      match output with
      | some path => .written path text
      | none => .printed text 0
  | check c allowUnresolved json =>
    match load d c with
    | .error f => .failed f
    | .ok l => .printed (report json l) (if passes allowUnresolved l then 0 else 1)
  | tokens file pretty =>
    match textFile? file with
    | some path =>
      match d.readText path with
      | .error why => .failed ⟨"Failed to read " ++ path, why.message⟩
      | .ok text => .printed (tokensOf pretty text) 0
    | none =>
      match Text.ofUtf8? input with
      | none => .failed ⟨"Failed to read stdin", Fault.notUtf8.message⟩
      | some text => .printed (tokensOf pretty text) 0

def writeFailure (path cause : String) : Failure := ⟨"Failed to write " ++ path, cause⟩

def version : String := "paper 0.1.0\n"

def usage : String :=
  "Assemble and check the paper's cross-referenced content\n\n" ++
  "Usage: paper <COMMAND>\n\n" ++
  "Commands:\n" ++
  "  assemble <DIR>   Assemble the document and print it as JSON\n" ++
  "  check <DIR>      Report degraded records and unresolved references\n" ++
  "  tokens [FILE]    Print the token stream of a text file (or stdin)\n" ++
  "  help [COMMAND]   Print this message\n\n" ++
  "Options of assemble and check:\n" ++
  "  --toc <FILE>           TOC record file name (overrides `_paper.yml`)\n" ++
  "  --bibliography <FILE>  Bibliography record file name (overrides `_paper.yml`)\n" ++
  "  --no-parallel          Resolve sections on a single thread\n" ++
  "Options of assemble:\n" ++
  "  -o, --output <FILE>    Write output to FILE instead of stdout\n" ++
  "  --pretty               Pretty-print the JSON output (also of tokens)\n" ++
  "Options of check:\n" ++
  "  --allow-unresolved     Exit successfully even if references are unresolved\n" ++
  "  --json                 Print diagnostics as JSON\n"

structure Result where
  code : Nat
  output : String
  failure : Option Failure := none
  deriving DecidableEq, Repr

def Stop.result : Stop → Result
  | help => { code := 0, output := usage }
  | version => { code := 0, output := Command.version }
  | misuse => { code := 2, output := "" }

def failureResult (f : Failure) : Result := { code := 1, output := "", failure := some f }

/-- Runs the program on files held in memory, and leaves them as the run does. -/
def runOn (t : Tree) (input : List UInt8) (args : List String) : Result × Tree :=
  match ofArguments args with
  | .error stop => (stop.result, t)
  | .ok c =>
    match run t.disk input c with
    | .printed text code => ({ code, output := text }, t)
    | .failed f => (failureResult f, t)
    | .written path text =>
      match t.write? path text.toUTF8.toList with
      | some t => ({ code := 0, output := "" }, t)
      | none => (failureResult (writeFailure path "the file cannot be written"), t)

end Manuscript.Command
