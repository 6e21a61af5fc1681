import Mathlib.Data.List.Basic

/-! Texts put together from parts with a separator between them, and taken apart at separators. Parts
without a separator are found again, and if none of them is empty a separator stands between two of them,
alone. -/
namespace Manuscript.Text

variable {α : Type} {p : α → Bool} {sep : α} {ws : List (List α)} {a b s : List α}

theorem intercalate_cons (sep : α) (w : List α) (ws : List (List α)) :
    [sep].intercalate (w :: ws) = w ++ ws.flatMap (sep :: ·) := by
  induction ws generalizing w with
  | nil => simp
  | cons w' ws ih => simp [List.intercalate_cons_cons, ih]

theorem of_mem_splitOnP {w : List α} (hw : w ∈ s.splitOnP p) : ∀ c ∈ w, p c = false := by
  induction s generalizing w with
  | nil =>
    rw [List.splitOnP_nil, List.mem_singleton] at hw
    subst hw
    exact List.forall_mem_nil _
  | cons c s ih =>
    rw [List.splitOnP_cons_eq_if_modifyHead] at hw
    split at hw
    · rcases List.mem_cons.mp hw with rfl | hw
      · exact List.forall_mem_nil _
      · exact ih hw
    · next hc =>
      obtain ⟨first, rest, hparts⟩ := List.exists_cons_of_ne_nil (List.splitOnP_ne_nil p s)
      rw [hparts] at hw ih
      rcases List.mem_cons.mp hw with rfl | hw
      · exact List.forall_mem_cons.mpr ⟨Bool.eq_false_iff.mpr hc, ih List.mem_cons_self⟩
      · exact ih (List.mem_cons_of_mem _ hw)

theorem splitOnP_intercalate (hsep : p sep = true) (hne : ws ≠ [])
    (hws : ∀ w ∈ ws, ∀ c ∈ w, p c = false) : ([sep].intercalate ws).splitOnP p = ws := by
  induction ws with
  | nil => exact absurd rfl hne
  | cons w ws ih =>
    obtain ⟨hw, hws⟩ := List.forall_mem_cons.mp hws
    cases ws with
    | nil =>
      rw [List.intercalate_singleton]
      exact List.splitOnP_eq_singleton hw
    | cons w' ws =>
      rw [List.intercalate_cons_cons, List.append_assoc, List.singleton_append,
        List.splitOnP_append_cons_of_forall_mem hw sep hsep, ih (List.cons_ne_nil _ _) hws]

theorem separator_apart [DecidableEq α] (hws : ∀ w ∈ ws, w ≠ [] ∧ sep ∉ w)
    (h : [sep].intercalate ws = a ++ sep :: b) : a ≠ [] ∧ b ≠ [] ∧ b.head? ≠ some sep := by
  have hne : ws ≠ [] := by
    rintro rfl
    exact absurd h.symm (by simp)
  have hparts : a.splitOn sep ++ b.splitOn sep = ws := by
    rw [← List.splitOn_intercalate sep (fun w hw => (hws w hw).2) hne, h]
    exact (List.splitOnP_append_cons a b (by simp)).symm
  have hempty : ∀ s : List α, s.splitOn sep ⊆ ws → [] ∉ s.splitOn sep := fun s hs hnil =>
    (hws [] (hs hnil)).1 rfl
  have ha := hempty a (hparts ▸ List.subset_append_left ..)
  have hb := hempty b (hparts ▸ List.subset_append_right ..)
  refine ⟨?_, ?_, ?_⟩
  · rintro rfl
    exact ha List.mem_cons_self
  · rintro rfl
    exact hb List.mem_cons_self
  · intro hhead
    obtain ⟨rest, rfl⟩ := List.head?_eq_some_iff.mp hhead
    apply hb
    rw [List.splitOn, List.splitOnP_cons_eq_if_modifyHead, if_pos (by simp)]
    exact List.mem_cons_self

end Manuscript.Text
