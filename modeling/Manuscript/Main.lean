import Manuscript.Command.Run

/-! The command line. Files are read before a command runs on them, and written after it. -/
namespace Manuscript.Program

def faultOf (e : IO.Error) : Fault :=
  match e with
  | .noFileOrDirectory _ _ _ => .missing
  | e => .other (toString e)

def readFile (path : String) : IO Look := do
  try pure (.file (← IO.FS.readBinFile path).toList)
  catch e => pure (.closed (faultOf e))

def look (path : String) : IO Look := do
  try
    match (← (← IO.FS.realPath path).metadata).type with
    | .dir => pure .folder
    | _ => readFile path
  catch e => pure (.nothing (faultOf e))

/-- The library reads names as texts. -/
def names (folder : String) : IO (Except Fault (List FileName)) := do
  try
    let entries ← (← IO.FS.realPath folder).readDir
    pure (.ok (entries.toList.map fun e => FileName.ofText e.fileName))
  catch e => pure (.error (faultOf e))

/-- The disk on which only the given paths have been looked at. -/
def seen (looks : List (String × Look)) (names : Except Fault (List FileName)) : Disk where
  look path := (looks.lookup path).getD (.nothing .missing)
  names _ := names

def lookAll (paths : List String) : IO (List (String × Look)) :=
  paths.mapM fun path => do pure (path, ← look path)

def survey (c : Command.Source) : IO Disk := do
  let first ← lookAll [Path.join c.folder Settings.file]
  let listing ← names c.folder
  match Settings.load (seen first listing) c.folder with
  | .error _ => pure (seen first listing)
  | .ok s =>
    let s := c.over s
    let listed := match listing with
      | .ok l => (l.filter (Paper.isSection c.folder s)).filterMap fun name =>
        name.text?.map (Path.join c.folder)
      | .error _ => []
    let rest ← lookAll (listed ++ [Paper.contentsPath c.folder s,
      Paper.bibliographyPath c.folder s, Paper.bibitemPath c.folder s])
    pure (seen (first ++ rest) listing)

def diskFor (c : Command) : IO Disk :=
  match c with
  | .assemble source _ _ | .check source _ _ => survey source
  | .tokens file _ => do
    pure (seen (← lookAll (Command.textFile? file).toList) (.ok []))

def finish (r : Command.Result) : IO UInt32 := do
  IO.print r.output
  match r.failure with
  | some f => IO.eprintln f.text
  | none => pure ()
  pure r.code.toUInt32

def runCommand (c : Command) : IO UInt32 := do
  let input ← if c.readsInput then (← IO.getStdin).readBinToEnd else pure .empty
  match Command.run (← diskFor c) input.toList c with
  | .printed text code => finish { code, output := text }
  | .failed f => finish (Command.failureResult f)
  | .written path text =>
    try
      IO.FS.writeFile path text
      finish { code := 0, output := "" }
    catch e => finish (Command.failureResult (Command.writeFailure path (faultOf e).message))

end Manuscript.Program

def main (args : List String) : IO UInt32 :=
  match Manuscript.Command.ofArguments args with
  | .error stop => do
    if stop = .misuse then IO.eprint Manuscript.Command.usage
    Manuscript.Program.finish stop.result
  | .ok c => Manuscript.Program.runCommand c
