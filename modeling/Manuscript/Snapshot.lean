import Manuscript.Reference

/-! A cache of the indices built last. It keeps one snapshot under its fingerprint; another
fingerprint replaces it whole, and a replaced snapshot never comes back. -/
namespace Manuscript

/-- Equal fingerprints stand for equal inputs. -/
structure Fingerprint where
  headings : List Heading
  sources : List Source
  deriving DecidableEq, Repr

/-- Indices as one object: each build makes a new one, numbered in the order they are built. -/
structure Snapshot where
  id : Nat
  indices : Indices
  deriving DecidableEq, Repr

structure Snapshot.Cache (φ : Type) where
  built : Nat
  slot : Option (φ × Snapshot)

namespace Snapshot.Cache

variable {φ : Type}

def empty : Cache φ := ⟨0, none⟩

def current? (c : Cache φ) : Option Snapshot := c.slot.map Prod.snd

def clear (c : Cache φ) : Cache φ := { c with slot := none }

structure Served where
  snapshot : Snapshot
  built : Bool

def rebuild (c : Cache φ) (fingerprint : φ) (indices : Indices) : Served × Cache φ :=
  let snapshot : Snapshot := ⟨c.built, indices⟩
  (⟨snapshot, true⟩, ⟨c.built + 1, some (fingerprint, snapshot)⟩)

def getOrBuild [DecidableEq φ] (c : Cache φ) (fingerprint : φ) (indices : Unit → Indices) :
    Served × Cache φ :=
  match c.slot with
  | some (cached, snapshot) =>
    if cached = fingerprint then (⟨snapshot, false⟩, c) else c.rebuild fingerprint (indices ())
  | none => c.rebuild fingerprint (indices ())

end Snapshot.Cache
end Manuscript
