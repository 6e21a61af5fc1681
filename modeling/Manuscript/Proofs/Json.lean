import Mathlib.Data.List.Induction
import Manuscript.Json.Basic

/-! Fields of objects. Putting fields in key order does not change what is read under a key: it is the
value written last. -/
namespace Manuscript.Json

variable {α : Type} {key name : String} {v : Json} {fields more : List (String × Json)}

theorem field?_cons (name key : String) (v : Json) (fields : List (String × Json)) :
    (object ((key, v) :: fields)).field? name =
      if key = name then some v else (object fields).field? name := by
  by_cases h : key = name <;> simp [field?, h]

theorem field?_insertField (name key : String) (v : Json) (fields : List (String × Json)) :
    (object (insertField key v fields)).field? name =
      if key = name then some v else (object fields).field? name := by
  induction fields with
  | nil => exact field?_cons name key v []
  | cons f fields ih =>
    obtain ⟨k, w⟩ := f
    rw [insertField]
    by_cases hsame : key = k
    · subst hsame
      rw [if_pos rfl, field?_cons, field?_cons]
      split <;> rfl
    · rw [if_neg hsame]
      by_cases hbefore : key < k
      · rw [if_pos hbefore, field?_cons]
      · rw [if_neg hbefore, field?_cons, ih, field?_cons]
        by_cases hk : k = name
        · rw [if_pos hk, if_neg (hk ▸ hsame), if_pos hk]
        · rw [if_neg hk, if_neg hk]

theorem field?_ofFields_concat (name key : String) (v : Json) (fields : List (String × Json)) :
    (ofFields (fields ++ [(key, v)])).field? name =
      if key = name then some v else (ofFields fields).field? name := by
  rw [ofFields, List.foldl_append]
  exact field?_insertField name key v _

@[simp] theorem field?_ofFields_nil (name : String) : (ofFields []).field? name = none := rfl

@[simp] theorem field?_ofFields_append (name : String) (fields more : List (String × Json)) :
    (ofFields (fields ++ more)).field? name =
      ((ofFields more).field? name).or ((ofFields fields).field? name) := by
  induction more using List.reverseRecOn with
  | nil => rw [List.append_nil, field?_ofFields_nil, Option.none_or]
  | append_singleton more f ih =>
    rw [← List.append_assoc, field?_ofFields_concat, field?_ofFields_concat, ih]
    split <;> rfl

@[simp] theorem field?_ofFields_cons (name key : String) (v : Json)
    (fields : List (String × Json)) : (ofFields ((key, v) :: fields)).field? name =
      ((ofFields fields).field? name).or (if key = name then some v else none) := by
  have hfirst : (ofFields [(key, v)]).field? name = if key = name then some v else none :=
    field?_ofFields_concat name key v []
  rw [← hfirst, ← field?_ofFields_append, List.singleton_append]

@[simp] theorem field?_ofFields_map (name key : String) (encode : α → Json) (part : Option α) :
    (ofFields (part.map fun a => (key, encode a)).toList).field? name =
      if key = name then part.map encode else none := by
  cases part with
  | none => simp
  | some a => simp

def nat? : Json → Option Nat
  | number (.int n) => if 0 ≤ n then some n.toNat else none
  | _ => none

@[simp] theorem nat?_ofNat (n : Nat) : (ofNat n).nat? = some n := by
  simp [ofNat, nat?]

@[simp] theorem text?_string (s : String) : (string s).text? = some s := rfl

end Manuscript.Json
