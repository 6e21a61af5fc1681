import Manuscript.Text.Search

/-! Where a first occurrence lies. A pattern is found right after a text in which none starts, also
across the border, and nowhere else; it is not found across the border if its first character is in
neither the text nor the rest of the pattern. An occurrence in two texts lies in one of them unless it
crosses the border, which it cannot do if the second begins with the first character of the pattern and
that is nowhere else in it. -/
namespace Manuscript.Text

theorem cut_append {p x s : List Char}
    (h : ∀ z, z ≠ [] → z <:+ x → ¬ p <+: z ++ (p ++ s)) : cut p (x ++ (p ++ s)) = some (x, s) := by
  induction x with
  | nil =>
    cases hp : p ++ s with
    | nil =>
      obtain ⟨rfl, rfl⟩ := List.append_eq_nil_iff.mp hp
      rfl
    | cons c t =>
      have hprefix : p.isPrefixOf (c :: t) = true :=
        List.isPrefixOf_iff_prefix.mpr ⟨s, hp⟩
      rw [List.nil_append, cut, if_pos hprefix, ← hp, List.drop_left]
  | cons c x ih =>
    have hno : ¬ p.isPrefixOf (c :: (x ++ (p ++ s))) = true := by
      rw [List.isPrefixOf_iff_prefix]
      exact h (c :: x) (List.cons_ne_nil c x) List.suffix_rfl
    have hx : cut p (x ++ (p ++ s)) = some (x, s) := by
      apply ih
      intro z hz hzx
      exact h z hz (hzx.trans (List.suffix_cons c x))
    rw [List.cons_append, cut, if_neg hno, hx]

theorem cut_append_of_head_notMem {a : Char} {p x s : List Char} (ha : a ∉ x) :
    cut (a :: p) (x ++ (a :: p ++ s)) = some (x, s) := by
  apply cut_append
  intro z hz hzx hprefix
  cases z with
  | nil => exact hz rfl
  | cons b z =>
    have hab : a = b := (List.cons_prefix_cons.mp hprefix).1
    exact ha (hab ▸ hzx.subset List.mem_cons_self)

theorem cut_append_of_not_infix {a : Char} {p x s : List Char} (ha : a ∉ p)
    (hx : ¬ (a :: p) <:+: x) : cut (a :: p) (x ++ (a :: p ++ s)) = some (x, s) := by
  apply cut_append
  intro z hz hzx hprefix
  have hz' : z <+: z ++ (a :: p ++ s) := List.prefix_append z _
  rcases Nat.le_total (a :: p).length z.length with hle | hle
  · have hpz : (a :: p) <+: z := List.prefix_of_prefix_length_le hprefix hz' hle
    exact hx (hpz.isInfix.trans hzx.isInfix)
  · -- the pattern would start inside the text and end in its own copy
    obtain ⟨w, hw⟩ := List.prefix_of_prefix_length_le hz' hprefix hle
    have hwp : w <+: a :: p ++ s := by
      rw [← List.prefix_append_right_inj z, hw]
      exact hprefix
    cases z with
    | nil => exact hz rfl
    | cons b z =>
      rw [List.cons_append] at hw
      obtain ⟨rfl, hp⟩ := List.cons.inj hw
      cases w with
      | nil =>
        rw [List.append_nil] at hp
        exact hx (hp ▸ hzx.isInfix)
      | cons d w =>
        have hd : d = b := (List.cons_prefix_cons.mp hwp).1
        exact ha (by rw [← hp, hd]; simp)

/-- No occurrence begins before the first one, not even across its border. -/
theorem not_infix_of_cut {p s a b : List Char} (hp : p ≠ []) (h : cut p s = some (a, b)) :
    ¬ p <:+: a ++ p.dropLast := by
  have hlong : ¬ p <:+: p.dropLast := by
    intro hinfix
    have hlen := hinfix.length_le
    have hpos := List.length_pos_iff.mpr hp
    rw [List.length_dropLast] at hlen
    omega
  induction s generalizing a with
  | nil =>
    have hnil := eq_of_cut h
    simp only [List.nil_eq, List.append_eq_nil_iff] at hnil
    exact absurd hnil.2.1 hp
  | cons c s ih =>
    rw [cut] at h
    split at h
    · cases h
      exact hlong
    · rename_i hno
      split at h
      · rename_i a' b' he
        cases h
        rw [List.cons_append, List.infix_cons_iff, not_or]
        refine ⟨fun hprefix => hno ?_, ih he⟩
        rw [List.isPrefixOf_iff_prefix, eq_of_cut he]
        apply hprefix.trans
        rw [List.cons_prefix_cons]
        refine ⟨rfl, (List.prefix_append_right_inj a').mpr ?_⟩
        exact (List.dropLast_prefix p).trans (List.prefix_append p b)
      · cases h

theorem cut_eq_some_iff {p s a b : List Char} (hp : p ≠ []) :
    cut p s = some (a, b) ↔ s = a ++ (p ++ b) ∧ ¬ p <:+: a ++ p.dropLast := by
  constructor
  · intro h
    exact ⟨eq_of_cut h, not_infix_of_cut hp h⟩
  · rintro ⟨rfl, hfirst⟩
    apply cut_append
    intro z hz hza hprefix
    -- the first place where the pattern could begin leaves room for all of it
    have hz' : z ++ p.dropLast <+: z ++ (p ++ b) :=
      (List.prefix_append_right_inj z).mpr ((List.dropLast_prefix p).trans (List.prefix_append p b))
    have hlen : p.length ≤ (z ++ p.dropLast).length := by
      have hpos := List.length_pos_iff.mpr hz
      rw [List.length_append, List.length_dropLast]
      omega
    have hpz : p <+: z ++ p.dropLast := List.prefix_of_prefix_length_le hprefix hz' hlen
    obtain ⟨y, rfl⟩ := hza
    apply hfirst
    rw [List.append_assoc]
    exact hpz.isInfix.trans (List.suffix_append y _).isInfix

theorem cut_append_of_cut {p s a b : List Char} (h : cut p s = some (a, b)) :
    cut p (a ++ p) = some (a, []) := by
  by_cases hp : p = []
  · subst hp
    cases s <;> cases h <;> rfl
  · have hfirst := ((cut_eq_some_iff hp).mp h).2
    exact (cut_eq_some_iff hp).mpr ⟨by rw [List.append_nil], hfirst⟩

theorem cut_eq_none {p s : List Char} (h : ¬ p <:+: s) : cut p s = none := by
  rw [Option.eq_none_iff_forall_ne_some]
  rintro ⟨a, b⟩ hcut
  rw [eq_of_cut hcut] at h
  exact h (List.infix_append' a p b)

/-! Where an occurrence in two texts lies. -/

variable {a : Char} {p x s : List Char}

theorem infix_of_head_notMem (ha : a ∉ x) (h : (a :: p) <:+: x ++ s) : (a :: p) <:+: s := by
  rcases List.infix_append_iff.mp h with hx | hs | ⟨z, w, hzw, hz, hw⟩
  · exact absurd (hx.subset List.mem_cons_self) ha
  · exact hs
  · cases z with
    | nil => exact hzw ▸ hw.isInfix
    | cons b z =>
      rw [(List.cons.inj hzw).1] at ha
      exact absurd (hz.subset List.mem_cons_self) ha

theorem infix_of_tail_notMem (hs : ∀ c ∈ s, c ∉ p) (h : p <:+: x ++ s) : p <:+: x := by
  rcases List.infix_append_iff.mp h with hx | hp | ⟨z, w, rfl, hz, hw⟩
  · exact hx
  · cases p with
    | nil => exact List.nil_infix
    | cons c p => exact absurd List.mem_cons_self (hs c (hp.subset List.mem_cons_self))
  · cases w with
    | nil =>
      rw [List.append_nil]
      exact hz.isInfix
    | cons c w => exact absurd (by simp) (hs c (hw.subset List.mem_cons_self))

/-- None crosses the border to a text that begins as the pattern does, if the pattern does not go on with
its first character. -/
theorem infix_append_of_head (ha : a ∉ p) (hs : ∀ c ∈ s.head?, c = a)
    (h : (a :: p) <:+: x ++ s) : (a :: p) <:+: x ∨ (a :: p) <:+: s := by
  rcases List.infix_append_iff.mp h with hx | hp | ⟨z, w, hzw, hz, hw⟩
  · exact .inl hx
  · exact .inr hp
  · cases z with
    | nil => exact .inr (hzw ▸ hw.isInfix)
    | cons b z =>
      cases w with
      | nil =>
        rw [List.append_nil] at hzw
        exact .inl (hzw ▸ hz.isInfix)
      | cons c w =>
        obtain ⟨t, rfl⟩ := hw
        obtain rfl := hs c rfl
        rw [(List.cons.inj hzw).2] at ha
        exact absurd (by simp) ha

theorem prefix_of_prefix_append (ha : a ∉ p) (hs : ∀ c ∈ s.head?, c = a) (hx : x ≠ [])
    (h : (a :: p) <+: x ++ s) : (a :: p) <+: x := by
  rcases Nat.le_total (a :: p).length x.length with hle | hle
  · exact List.prefix_of_prefix_length_le h (List.prefix_append x s) hle
  · obtain ⟨w, hw⟩ := List.prefix_of_prefix_length_le (List.prefix_append x s) h hle
    cases w with
    | nil =>
      rw [List.append_nil] at hw
      exact hw ▸ List.prefix_rfl
    | cons c w =>
      rw [← hw, List.prefix_append_right_inj] at h
      obtain ⟨t, rfl⟩ := h
      obtain rfl := hs c rfl
      obtain ⟨b, x, rfl⟩ := List.exists_cons_of_ne_nil hx
      rw [← (List.cons.inj hw).2] at ha
      exact absurd (by simp) ha

end Manuscript.Text
