import Manuscript.Text.Utf8

/-! Names in a folder. A name is bytes, and they need not encode a text; where a name is reported, or its stem
names a section file, it is shown as a text. -/
namespace Manuscript

/-- A name around its last dot; a dot at the start is part of the stem. -/
def splitName {α : Type} [DecidableEq α] (dot : α) (name : List α) : List α × Option (List α) :=
  let r := name.reverse
  match r.dropWhile (· ≠ dot) with
  -- no dot, or one at the start
  | [] | [_] => (name, none)
  | _ :: before => (before.reverse, some (r.takeWhile (· ≠ dot)).reverse)

structure FileName where
  bytes : List UInt8
  deriving DecidableEq, Repr

namespace FileName

def ofText (name : String) : FileName := ⟨Text.toUtf8 name⟩

instance : Coe String FileName := ⟨ofText⟩

def text? (n : FileName) : Option String := Text.ofUtf8? n.bytes

def shown (n : FileName) : String := Text.lossy n.bytes

def dot : UInt8 := 46

def extension? (n : FileName) : Option (List UInt8) := (splitName dot n.bytes).2

/-- The name without its extension, as a text. Names that are not texts may have the stem of another. -/
def stem (n : FileName) : String := Text.lossy (splitName dot n.bytes).1

end FileName
end Manuscript
