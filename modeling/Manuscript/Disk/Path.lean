import Manuscript.Disk.Name

/-! Paths. A path is kept as it is written and compared by its parts. -/
namespace Manuscript.Path

def pieces : List Char → List (List Char)
  | [] => [[]]
  | c :: s =>
    if c = '/' then [] :: pieces s
    else match pieces s with
      | [] => [[c]]
      | p :: ps => (c :: p) :: ps

def isAbsolute (path : String) : Bool := path.toList.head? = some '/'

def segments (path : String) : List String := (pieces path.toList).map String.ofList

/-- What two ways to write one path share: `"/"` at the start of an absolute path, `"."` only at
the start, no part for two slashes in a row, and `".."` as it is written. -/
def parts (path : String) : List String :=
  let inner := (segments path).filter fun p => p != "" && p != "."
  if isAbsolute path then "/" :: inner
  else if (segments path).head? = some "." then "." :: inner
  else inner

def same (a b : String) : Bool := parts a == parts b

def join (folder name : String) : String :=
  if isAbsolute name then name
  else if folder.isEmpty || folder.toList.getLast? = some '/' then folder ++ name
  else folder ++ "/" ++ name

def fileName? (path : String) : Option String :=
  (parts path).getLast?.filter fun p => p != "/" && p != "." && p != ".."

def stem (path : String) : String :=
  ((fileName? path).map fun n => String.ofList (splitName '.' n.toList).1).getD ""

end Manuscript.Path
