import Manuscript.Disk.Basic
import Manuscript.OrderedMap

/-! Files held in memory. A place is the list of the names that lead to it from the current folder;
places above that folder begin with `".."`, those of absolute paths with `"/"`. -/
namespace Manuscript

inductive Tree.Node
  | file (bytes : List UInt8)
  | folder
  deriving DecidableEq, Repr

structure Tree where
  nodes : OrderedMap (List String) Tree.Node

namespace Tree

abbrev Place := List String

def empty : Tree := ⟨.empty⟩

def alwaysFolder (place : Place) : Bool := place == ["/"] || place.all (· == "..")

def node? (t : Tree) (place : Place) : Option Node :=
  if alwaysFolder place then some .folder else t.nodes.get? place

def above (place : Place) : Place :=
  if place = ["/"] then place
  else if place.all (· == "..") then place ++ [".."]
  else place.dropLast

/-- The place that the pieces of a path lead to. Every piece, also an empty one, asks for a folder
before it. -/
def walk (t : Tree) (place : Place) : List String → Except Fault Place
  | [] => .ok place
  | name :: rest =>
    match t.node? place with
    | none => .error .missing
    | some (.file _) => .error .notFolder
    | some .folder =>
      if name = "" ∨ name = "." then t.walk place rest
      else if name = ".." then t.walk (above place) rest
      else if 255 < name.utf8ByteSize then .error .nameTooLong
      else t.walk (place ++ [name]) rest

def start (path : String) : Place := if Path.isAbsolute path then ["/"] else []

def locate (t : Tree) (path : String) : Except Fault Place :=
  if path.isEmpty then .error .missing
  else if path.contains (Char.ofNat 0) then .error .nulInName
  else if 4096 ≤ path.utf8ByteSize then .error .nameTooLong
  else t.walk (start path) (Path.segments path)

def look (t : Tree) (path : String) : Look :=
  match t.locate path with
  | .error why => .nothing why
  | .ok place =>
    match t.node? place with
    | none => .nothing .missing
    | some (.file bytes) => .file bytes
    | some .folder => .folder

def namesAt (t : Tree) (place : Place) : List String :=
  t.nodes.keys.filterMap fun k => if k.dropLast = place then k.getLast? else none

def names (t : Tree) (path : String) : Except Fault (List String) :=
  match t.locate path with
  | .error why => .error why
  | .ok place =>
    match t.node? place with
    | none => .error .missing
    | some (.file _) => .error .notFolder
    | some .folder => .ok (t.namesAt place)

def disk (t : Tree) : Disk where
  look := t.look
  names path := (t.names path).map fun names => names.map FileName.ofText

def putAt (t : Tree) (place : Place) (node : Node) : Tree :=
  -- the folders on the way that are not there yet
  let ways := ((List.range place.length).map place.take).filter fun p => (t.node? p).isNone
  ⟨(ways.foldl (fun nodes p => nodes.put p .folder) t.nodes).put place node⟩

def add (t : Tree) (path : String) (node : Node) : Tree :=
  let place := start path ++ (Path.segments path).filter fun p => p != "" && p != "."
  match node, t.node? place with
  | .folder, some _ => t
  | _, _ => t.putAt place node

def write? (t : Tree) (path : String) (bytes : List UInt8) : Option Tree :=
  match t.locate path with
  | .error _ => none
  | .ok place =>
    match t.node? place with
    | some .folder => none
    | _ => some ⟨t.nodes.put place (.file bytes)⟩

end Tree
end Manuscript
