/-! Gathering values under their keys, keys in the order they are first seen. -/
namespace Manuscript

variable {α : Type}

def addToGroup (key : String) (value : α) : List (String × List α) → List (String × List α)
  | [] => [(key, [value])]
  | (k, values) :: groups =>
    if k = key then (k, values ++ [value]) :: groups
    else (k, values) :: addToGroup key value groups

def gather (items : List (String × α)) : List (String × List α) :=
  items.foldl (fun groups i => addToGroup i.1 i.2 groups) []

end Manuscript
