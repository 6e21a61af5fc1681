import Manuscript.Disk.Path
import Manuscript.Json.Reader
import Manuscript.Text.Utf8

/-! What a program sees of the files around it. -/
namespace Manuscript

inductive Fault
  | missing
  | notFolder
  | isFolder
  | nameTooLong
  | nulInName
  | notUtf8
  | other (message : String)
  deriving DecidableEq, Repr

def Fault.message : Fault → String
  | missing => "No such file or directory (os error 2)"
  | notFolder => "Not a directory (os error 20)"
  | isFolder => "Is a directory (os error 21)"
  | nameTooLong => "File name too long (os error 36)"
  | nulInName => "file name contained an unexpected NUL byte"
  | notUtf8 => "stream did not contain valid UTF-8"
  | other message => message

inductive Look
  | file (bytes : List UInt8)
  /-- A file that is there and cannot be read. -/
  | closed (why : Fault)
  | folder
  | nothing (why : Fault)
  deriving DecidableEq, Repr

/-- Files and folders by the paths that lead to them, and the names in a folder. -/
structure Disk where
  look : String → Look
  names : String → Except Fault (List FileName)
  /-- What lies in a folder under a name that is no text, as no path leads there. -/
  hidden : String → FileName → Look := fun _ _ => .nothing .missing

namespace Disk

def read (d : Disk) (path : String) : Except Fault (List UInt8) :=
  match d.look path with
  | .file bytes => .ok bytes
  | .closed why => .error why
  | .folder => .error .isFolder
  | .nothing why => .error why

def readText (d : Disk) (path : String) : Except Fault String :=
  match d.read path with
  | .ok bytes =>
    match Text.ofUtf8? bytes with
    | some text => .ok text
    | none => .error .notUtf8
  | .error why => .error why

def entry (d : Disk) (folder : String) (name : FileName) : Look :=
  match name.text? with
  | some text => d.look (Path.join folder text)
  | none => d.hidden folder name

def has (d : Disk) (path : String) : Bool :=
  match d.look path with
  | .nothing _ => false
  | _ => true

end Disk

inductive RecordError
  | unreadable (path : String) (why : Fault)
  | notJson (path : String) (error : Json.SyntaxError)
  deriving DecidableEq, Repr

def RecordError.message : RecordError → String
  | unreadable path why => "failed to read " ++ path ++ ": " ++ why.message
  | notJson path error => "invalid JSON in " ++ path ++ ": " ++ error.message

def Disk.readJson (d : Disk) (path : String) : Except RecordError Json :=
  match d.read path with
  | .error why => .error (.unreadable path why)
  | .ok bytes =>
    match Json.read bytes with
    | .error e => .error (.notJson path e)
    | .ok v => .ok v

end Manuscript
