import Mathlib.Data.List.Basic
import Mathlib.Data.List.Induction
import Manuscript.Gather

/-! Gathering is a stable partition: one group for each key, keys by their first occurrence, and in
each group the values of its key in their order, so that the groups together are all the values. -/
namespace Manuscript

variable {α : Type} {key : String} {value : α} {keys : List String}

theorem eraseDups_concat_of_mem {l : List String} (h : key ∈ l) :
    (l ++ [key]).eraseDups = l.eraseDups := by
  have hr : [key].removeAll l = [] := by simp [List.removeAll, h]
  rw [List.eraseDups_append, hr, List.eraseDups_nil, List.append_nil]

theorem eraseDups_concat_of_notMem {l : List String} (h : key ∉ l) :
    (l ++ [key]).eraseDups = l.eraseDups ++ [key] := by
  have hr : [key].removeAll l = [key] := by simp [List.removeAll, h]
  rw [List.eraseDups_append, hr]
  rfl

theorem pairwise_idxOf_eraseDups (l : List String) :
    l.eraseDups.Pairwise fun a b => l.idxOf a < l.idxOf b := by
  induction l using List.reverseRecOn with
  | nil => simp
  | append_singleton l key ih =>
    have hold : l.eraseDups.Pairwise fun a b =>
        (l ++ [key]).idxOf a < (l ++ [key]).idxOf b := by
      refine ih.imp_of_mem fun {a b} ha hb hab => ?_
      rw [List.idxOf_append_of_mem (List.mem_eraseDups.mp ha),
        List.idxOf_append_of_mem (List.mem_eraseDups.mp hb)]
      exact hab
    by_cases h : key ∈ l
    · rw [eraseDups_concat_of_mem h]
      exact hold
    · rw [eraseDups_concat_of_notMem h]
      refine List.pairwise_append.mpr ⟨hold, List.pairwise_singleton .., ?_⟩
      intro a ha b hb
      rw [List.mem_singleton.mp hb, List.idxOf_append_of_mem (List.mem_eraseDups.mp ha),
        List.idxOf_append_of_notMem h]
      have hlt := List.idxOf_lt_length_of_mem (List.mem_eraseDups.mp ha)
      omega

theorem nodup_eraseDups (l : List String) : l.eraseDups.Nodup :=
  (pairwise_idxOf_eraseDups l).imp fun hlt heq => Nat.ne_of_lt hlt (congrArg l.idxOf heq)

theorem addToGroup_of_notMem (group : String → List α) (h : key ∉ keys) :
    addToGroup key value (keys.map fun k => (k, group k)) =
      keys.map (fun k => (k, group k)) ++ [(key, [value])] := by
  induction keys with
  | nil => rfl
  | cons k keys ih =>
    simp only [List.mem_cons, not_or] at h
    simp [addToGroup, Ne.symm h.1, ih h.2]

theorem addToGroup_of_mem (group : String → List α) (h : key ∈ keys) (hkeys : keys.Nodup) :
    addToGroup key value (keys.map fun k => (k, group k)) =
      keys.map fun k => (k, if k = key then group k ++ [value] else group k) := by
  induction keys with
  | nil => cases h
  | cons k keys ih =>
    obtain ⟨hk, hkeys⟩ := List.nodup_cons.mp hkeys
    by_cases hkey : k = key
    · have hrest : ∀ k' ∈ keys, k' ≠ key := by
        rintro k' hk' rfl
        exact hk (hkey ▸ hk')
      have htail : keys.map (fun k' => (k', if k' = key then group k' ++ [value] else group k')) =
          keys.map fun k' => (k', group k') := by
        apply List.map_congr_left
        intro k' hk'
        rw [if_neg (hrest k' hk')]
      rw [List.map_cons, List.map_cons, htail]
      simp [addToGroup, hkey]
    · have hmem : key ∈ keys := by
        rcases List.mem_cons.mp h with h | h
        · exact absurd h.symm hkey
        · exact h
      simp [addToGroup, hkey, ih hmem hkeys]

def valuesOf (key : String) (items : List (String × α)) : List α :=
  (items.filter fun i => i.1 == key).map Prod.snd

theorem valuesOf_concat (items : List (String × α)) (key' : String) :
    valuesOf key' (items ++ [(key, value)]) =
      if key' = key then valuesOf key' items ++ [value] else valuesOf key' items := by
  by_cases h : key' = key
  · simp [valuesOf, h]
  · simp [valuesOf, h, Ne.symm h]

theorem valuesOf_eq_nil {items : List (String × α)} (h : key ∉ items.map Prod.fst) :
    valuesOf key items = [] := by
  simp only [valuesOf, List.map_eq_nil_iff, List.filter_eq_nil_iff, beq_iff_eq]
  rintro i hi rfl
  exact h (List.mem_map_of_mem hi)

theorem gather_concat (items : List (String × α)) (i : String × α) :
    gather (items ++ [i]) = addToGroup i.1 i.2 (gather items) := by
  simp [gather]

theorem gather_eq (items : List (String × α)) :
    gather items = (items.map Prod.fst).eraseDups.map fun k => (k, valuesOf k items) := by
  induction items using List.reverseRecOn with
  | nil => rfl
  | append_singleton items i ih =>
    obtain ⟨key, value⟩ := i
    rw [gather_concat, ih, List.map_append, List.map_singleton]
    by_cases h : key ∈ items.map Prod.fst
    · rw [addToGroup_of_mem _ (List.mem_eraseDups.mpr h) (nodup_eraseDups _),
        eraseDups_concat_of_mem h]
      apply List.map_congr_left
      intro k _
      rw [valuesOf_concat]
    · rw [addToGroup_of_notMem _ (fun hm => h (List.mem_eraseDups.mp hm)),
        eraseDups_concat_of_notMem h, List.map_append]
      have hgroup : valuesOf key (items ++ [(key, value)]) = [value] := by
        rw [valuesOf_concat, if_pos rfl, valuesOf_eq_nil h, List.nil_append]
      congr 1
      · apply List.map_congr_left
        intro k hk
        have hne : k ≠ key := by
          rintro rfl
          exact h (List.mem_eraseDups.mp hk)
        rw [valuesOf_concat, if_neg hne]
      · simp [hgroup]

/-! Nothing is lost or added. -/

theorem perm_addToGroup (key : String) (value : α) (groups : List (String × List α)) :
    ((addToGroup key value groups).flatMap Prod.snd).Perm
      (value :: groups.flatMap Prod.snd) := by
  induction groups with
  | nil => rfl
  | cons g groups ih =>
    simp only [addToGroup]
    by_cases hkey : g.1 = key
    · rw [if_pos hkey, List.flatMap_cons, List.flatMap_cons, List.append_assoc]
      exact List.perm_middle
    · rw [if_neg hkey, List.flatMap_cons, List.flatMap_cons]
      exact (ih.append_left g.2).trans List.perm_middle

theorem perm_gather (items : List (String × α)) :
    ((gather items).flatMap Prod.snd).Perm (items.map Prod.snd) := by
  induction items using List.reverseRecOn with
  | nil => rfl
  | append_singleton items i ih =>
    rw [gather_concat, List.map_append, List.map_singleton]
    have hlast : (i.2 :: items.map Prod.snd).Perm (items.map Prod.snd ++ [i.2]) :=
      (List.perm_append_singleton i.2 _).symm
    exact (perm_addToGroup i.1 i.2 _).trans ((ih.cons i.2).trans hlast)

end Manuscript
