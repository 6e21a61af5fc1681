import Manuscript.Proofs.Text.Bytes

/-! Checked reads of a text by byte offsets. A read past the end, a slice whose bounds are out of
order, past the end or inside a character, and a difference below zero are faults. Main statements:
where the characters of a text start, its bytes are those of the characters, and slices between such
places succeed. -/
namespace Manuscript.Markup.Offset

open Manuscript.Text

inductive Fault
  | index
  | slice
  | underflow
  | stall
  deriving DecidableEq, Repr

abbrev Checked := Except Fault

@[simp] theorem ok_bind {α β : Type} (a : α) (f : α → Checked β) : (Except.ok a >>= f) = f a := rfl

def difference (a b : Nat) : Checked Nat := if b ≤ a then .ok (a - b) else .error .underflow

def peek (src : List Char) (i : Nat) : Option UInt8 := (bytes src)[i]?

def byteAt (src : List Char) (i : Nat) : Checked UInt8 :=
  match peek src i with
  | some b => .ok b
  | none => .error .index

/-- The text from a byte offset on, if a character starts there or the text ends there. -/
def dropBytes : Nat → List Char → Option (List Char)
  | 0, s => some s
  | _ + 1, [] => none
  | n + 1, c :: s => if c.utf8Size ≤ n + 1 then dropBytes (n + 1 - c.utf8Size) s else none

def takeBytes : Nat → List Char → Option (List Char)
  | 0, _ => some []
  | _ + 1, [] => none
  | n + 1, c :: s =>
    if c.utf8Size ≤ n + 1 then (takeBytes (n + 1 - c.utf8Size) s).map (c :: ·) else none

def slice (src : List Char) (start stop : Nat) : Checked (List Char) :=
  if start ≤ stop then
    match (dropBytes start src).bind (takeBytes (stop - start)) with
    | some s => .ok s
    | none => .error .slice
  else .error .slice

def sliceFrom (src : List Char) (start : Nat) : Checked (List Char) :=
  match dropBytes start src with
  | some s => .ok s
  | none => .error .slice

def Starts (src : List Char) (i : Nat) (s : List Char) : Prop :=
  ∃ before, src = before ++ s ∧ byteLength before = i

variable {src s t a : List Char} {c : Char} {i j : Nat}

theorem starts_zero (src : List Char) : Starts src 0 src := ⟨[], rfl, rfl⟩

theorem Starts.after (h : Starts src i (a ++ s)) (hj : j = i + byteLength a) : Starts src j s := by
  obtain ⟨before, rfl, rfl⟩ := h
  exact ⟨before ++ a, by simp, by simp [hj]⟩

theorem Starts.tail (h : Starts src i (c :: s)) : Starts src (i + c.utf8Size) s :=
  Starts.after (a := [c]) h (by simp)

theorem Starts.byteLength_eq (h : Starts src i s) : byteLength src = i + byteLength s := by
  obtain ⟨before, rfl, rfl⟩ := h
  simp

theorem Starts.lt_of_cons (h : Starts src i (c :: s)) : i < byteLength src := by
  have hc := c.utf8Size_pos
  rw [h.byteLength_eq, byteLength_cons]
  omega

theorem Starts.drop_of_le (h : Starts src i s) (h' : Starts src j t) (hij : i ≤ j) :
    ∃ n, t = s.drop n := by
  obtain ⟨before, rfl, rfl⟩ := h
  obtain ⟨before', he, rfl⟩ := h'
  rcases List.append_eq_append_iff.mp he with ⟨w, hbefore, hs⟩ | ⟨w, hbefore, ht⟩
  · exact ⟨w.length, by rw [hs, List.drop_left]⟩
  · cases w with
    | nil => exact ⟨0, by simpa using ht⟩
    | cons d w =>
      have hd := d.utf8Size_pos
      rw [hbefore, byteLength_append, byteLength_cons] at hij
      omega

theorem peek_starts (h : Starts src i s) (j : Nat) : peek src (i + j) = (bytes s)[j]? := by
  obtain ⟨before, rfl, rfl⟩ := h
  rw [peek, bytes_append, List.getElem?_append_right (by simp)]
  simp

theorem Starts.peek_nil (h : Starts src i []) : peek src i = none := by
  have := peek_starts h 0
  simpa using this

theorem byteLength_cons_eq_succ (c : Char) (a : List Char) :
    ∃ n, byteLength (c :: a) = n + 1 ∧ c.utf8Size ≤ n + 1 ∧ n + 1 - c.utf8Size = byteLength a := by
  have hc := c.utf8Size_pos
  refine ⟨byteLength (c :: a) - 1, ?_, ?_, ?_⟩ <;> rw [byteLength_cons] <;> omega

theorem dropBytes_starts (h : Starts src i s) : dropBytes i src = some s := by
  obtain ⟨before, rfl, rfl⟩ := h
  induction before with
  | nil => simp [dropBytes]
  | cons c before ih =>
    obtain ⟨n, hn, hle, hsub⟩ := byteLength_cons_eq_succ c before
    rw [hn, List.cons_append, dropBytes, if_pos hle, hsub, ih]

theorem takeBytes_append (a s : List Char) : takeBytes (byteLength a) (a ++ s) = some a := by
  induction a with
  | nil => simp [takeBytes]
  | cons c a ih =>
    obtain ⟨n, hn, hle, hsub⟩ := byteLength_cons_eq_succ c a
    rw [hn, List.cons_append, takeBytes, if_pos hle, hsub, ih]
    rfl

theorem starts_of_dropBytes (h : dropBytes i src = some s) : Starts src i s := by
  fun_induction dropBytes i src with
  | case1 src =>
    cases h
    exact starts_zero _
  | case2 => cases h
  | case3 n c src hle ih =>
    obtain ⟨before, rfl, hlen⟩ := ih h
    refine ⟨c :: before, rfl, ?_⟩
    rw [byteLength_cons, hlen]
    omega
  | case4 => cases h

theorem eq_append_of_takeBytes {n : Nat} (h : takeBytes n s = some a) :
    ∃ t, s = a ++ t ∧ byteLength a = n := by
  fun_induction takeBytes n s generalizing a with
  | case1 s =>
    cases h
    exact ⟨s, rfl, rfl⟩
  | case2 => cases h
  | case3 n c s hle ih =>
    obtain ⟨a', ha, rfl⟩ := Option.map_eq_some_iff.mp h
    obtain ⟨t, rfl, hlen⟩ := ih ha
    refine ⟨t, rfl, ?_⟩
    rw [byteLength_cons, hlen]
    omega
  | case4 => cases h

/-- A cut succeeds where the text it gives lies at these offsets, and nowhere else. -/
theorem slice_eq_ok_iff :
    slice src i j = .ok a ↔ ∃ s, Starts src i (a ++ s) ∧ j = i + byteLength a := by
  constructor
  · intro h
    rw [slice] at h
    split at h
    · rename_i hij
      split at h
      · rename_i b hb
        cases h
        obtain ⟨t, ht, ha⟩ := Option.bind_eq_some_iff.mp hb
        obtain ⟨s, rfl, hlen⟩ := eq_append_of_takeBytes ha
        exact ⟨s, starts_of_dropBytes ht, by omega⟩
      · cases h
    · cases h
  · rintro ⟨s, hs, hj⟩
    have hsub : j - i = byteLength a := by omega
    rw [slice, if_pos (by omega), dropBytes_starts hs, hsub, Option.bind_some, takeBytes_append]

example : slice ['é', 'a'] 0 2 = .ok ['é'] ∧ slice ['é', 'a'] 0 1 = .error .slice := ⟨rfl, rfl⟩

theorem slice_starts (h : Starts src i (a ++ s)) (hj : j = i + byteLength a) :
    slice src i j = .ok a :=
  slice_eq_ok_iff.mpr ⟨s, h, hj⟩

theorem sliceFrom_eq_ok_iff : sliceFrom src i = .ok s ↔ Starts src i s := by
  constructor
  · intro h
    rw [sliceFrom] at h
    split at h
    · rename_i hs
      cases h
      exact starts_of_dropBytes hs
    · cases h
  · intro h
    rw [sliceFrom, dropBytes_starts h]

end Manuscript.Markup.Offset
