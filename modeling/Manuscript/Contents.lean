import Manuscript.Gather
import Manuscript.Json.Basic

/-! The table of contents: headings in the order they were given. A slug should be carried by one
heading only; where it is not, the first one is found. -/
namespace Manuscript

/-- A heading. References name its slug; `file` is the content file it belongs to. -/
structure Heading where
  level : UInt32
  text : String
  slug : String
  file : String
  deriving DecidableEq, Repr, Inhabited

def Heading.toJson (h : Heading) : Json := .object
  [("level", .ofNat h.level.toNat), ("text", .string h.text), ("slug", .string h.slug),
    ("file", .string h.file)]

structure Contents where
  headings : List Heading
  deriving DecidableEq, Repr, Inhabited

namespace Contents

def lookup? (c : Contents) (slug : String) : Option Heading :=
  c.headings.find? fun h => h.slug == slug

def size (c : Contents) : Nat := c.headings.length

def isEmpty (c : Contents) : Bool := c.headings.isEmpty

def duplicateSlugs (headings : List Heading) : List String :=
  ((gather (headings.map fun h => (h.slug, h))).filter fun g => 1 < g.2.length).map Prod.fst

def groups (c : Contents) : List (String × List Heading) :=
  gather (c.headings.map fun h => (h.file, h))

def files (c : Contents) : List String := c.groups.map Prod.fst

end Contents
end Manuscript
