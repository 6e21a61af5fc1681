import Mathlib.Data.List.Dedup
import Mathlib.Data.List.Induction
import Manuscript.OrderedMap

/-! What reading a map after an operation gives, and what a map made of a list holds: the keys of the
list in the order of their last occurrence, each with the value it was given last. -/
namespace Manuscript.OrderedMap

variable {κ α : Type} [DecidableEq κ]

theorem get?_eq_some_of_mem (m : OrderedMap κ α) {e : κ × α} (he : e ∈ m.entries) :
    m.get? e.1 = some e.2 := by
  obtain ⟨entries, hnodup⟩ := m
  simp only [get?]
  induction entries with
  | nil => cases he
  | cons a entries ih =>
    rw [List.map_cons, List.nodup_cons] at hnodup
    rcases List.mem_cons.mp he with rfl | he
    · simp
    · have hne : a.1 ≠ e.1 := fun h => hnodup.1 (h ▸ List.mem_map_of_mem he)
      simp [hne, ih hnodup.2 he]

theorem mem_of_get? {m : OrderedMap κ α} {key : κ} {value : α} (h : m.get? key = some value) :
    (key, value) ∈ m.entries := by
  obtain ⟨e, he, rfl⟩ := Option.map_eq_some_iff.mp h
  have hkey : e.1 = key := by simpa using List.find?_some he
  rw [← hkey]
  exact List.mem_of_find?_eq_some he

theorem get?_erase_of_ne (m : OrderedMap κ α) {key key' : κ} (h : key' ≠ key) :
    (m.erase key).get? key' = m.get? key' := by
  simp only [get?, erase, List.find?_filter]
  congr 2
  funext e
  by_cases he : e.1 = key'
  · simp [he, h]
  · simp [he]

theorem get?_put_self (m : OrderedMap κ α) (key : κ) (value : α) :
    (m.put key value).get? key = some value :=
  get?_eq_some_of_mem (m.put key value) (e := (key, value)) (by simp [put])

theorem get?_put_of_ne (m : OrderedMap κ α) {key key' : κ} (value : α) (h : key' ≠ key) :
    (m.put key value).get? key' = m.get? key' := by
  rw [← get?_erase_of_ne m h]
  simp [get?, put, List.find?_append, Ne.symm h]

theorem ofList_concat (entries : List (κ × α)) (e : κ × α) :
    ofList (entries ++ [e]) = (ofList entries).put e.1 e.2 := by
  simp [ofList]

theorem dedup_concat (l : List κ) (key : κ) :
    (l ++ [key]).dedup = l.dedup.filter (· != key) ++ [key] := by
  induction l with
  | nil => simp
  | cons a l ih =>
    by_cases hkey : a = key
    · subst hkey
      rw [List.cons_append, List.dedup_cons_of_mem (by simp), ih]
      by_cases ha : a ∈ l <;> simp [ha]
    · by_cases ha : a ∈ l
      · rw [List.cons_append, List.dedup_cons_of_mem (by simp [ha]), ih, List.dedup_cons_of_mem ha]
      · rw [List.cons_append, List.dedup_cons_of_notMem (by simp [ha, hkey]), ih,
          List.dedup_cons_of_notMem ha]
        simp [hkey]

theorem keys_ofList (entries : List (κ × α)) :
    (ofList entries).keys = (entries.map Prod.fst).dedup := by
  induction entries using List.reverseRecOn with
  | nil => rfl
  | append_singleton entries e ih =>
    rw [ofList_concat, keys_put, ih, List.map_append, List.map_singleton, dedup_concat]

theorem get?_ofList (entries : List (κ × α)) (key : κ) :
    (ofList entries).get? key = entries.reverse.lookup key := by
  induction entries using List.reverseRecOn with
  | nil => rfl
  | append_singleton entries e ih =>
    rw [ofList_concat, List.reverse_append, List.reverse_singleton, List.singleton_append,
      List.lookup_cons]
    by_cases h : key = e.1
    · subst h
      simp [get?_put_self]
    · rw [get?_put_of_ne _ _ h, ih, beq_false_of_ne h]

theorem entries_ofList {entries : List (κ × α)} (h : (entries.map Prod.fst).Nodup) :
    (ofList entries).entries = entries := by
  induction entries using List.reverseRecOn with
  | nil => rfl
  | append_singleton entries e ih =>
    rw [List.map_append, List.map_singleton, List.nodup_append] at h
    have hother : ∀ a ∈ entries, (a.1 != e.1) = true := by
      intro a ha
      exact bne_iff_ne.mpr (h.2.2 a.1 (List.mem_map_of_mem ha) e.1 (List.mem_singleton.mpr rfl))
    have hput : ((ofList entries).put e.1 e.2).entries =
        (ofList entries).entries.filter (fun a => a.1 != e.1) ++ [e] := rfl
    rw [ofList_concat, hput, ih h.1, List.filter_eq_self.mpr hother]

theorem get?_eq_lookup_reverse (m : OrderedMap κ α) (key : κ) :
    m.get? key = m.entries.reverse.lookup key := by
  rw [← get?_ofList, get?, get?, entries_ofList m.nodup]

theorem get?_map {β : Type} (f : α → β) (m : OrderedMap κ α) (key : κ) :
    (m.map f).get? key = (m.get? key).map f := by
  simp [get?, map, List.find?_map, Function.comp_def]

theorem get?_eq_none {m : OrderedMap κ α} {key : κ} (h : key ∉ m.keys) : m.get? key = none := by
  simp only [get?, Option.map_eq_none_iff, List.find?_eq_none, beq_iff_eq]
  rintro e he rfl
  exact h (List.mem_map_of_mem he)

end Manuscript.OrderedMap
