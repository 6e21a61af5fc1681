import Manuscript.Proofs.Pattern.Basic

/-! Searches for a pattern from the start of a text to its end. At each place the first way to match is
taken and the search goes on behind it; a place without a match is passed over. Main statements: what is
found are matches that do not overlap, and a match that is not found begins inside of one that is; a line
feed parts the search for a pattern that takes none. -/
namespace Manuscript.Pattern

structure Hit where
  start : Nat
  taken : List Char
  groups : List (Nat × List Char)

def Hit.stop (h : Hit) : Nat := h.start + h.taken.length

def Hit.group? (h : Hit) (n : Nat) : Option (List Char) := h.groups.lookup n

/-- The matches found in a text that `i` characters stand before. -/
inductive Finds (p : Pattern) : Bool → Nat → List Char → List Hit → Prop
  | done {fresh : Bool} {i : Nat} : p.ways fresh [] = [] → Finds p fresh i [] []
  | pass {fresh : Bool} {i : Nat} {c : Char} {s : List Char} {hits : List Hit} :
      p.ways fresh (c :: s) = [] → Finds p (c == '\n') (i + 1) s hits →
      Finds p fresh i (c :: s) hits
  | hit {fresh : Bool} {i : Nat} {s : List Char} {w : Way} {hits : List Hit} :
      (p.ways fresh s).head? = some w → w.taken ≠ [] →
      Finds p (freshAfter fresh w.taken) (i + w.taken.length) w.rest hits →
      Finds p fresh i s (⟨i, w.taken, w.groups⟩ :: hits)

def TakesSome (p : Pattern) : Prop := ∀ fresh s, ∀ w ∈ p.ways fresh s, w.taken ≠ []

/-- A function that searches texts for patterns, as long as these match no empty text. -/
def IsSearch (search : Pattern → List Char → List Hit) : Prop :=
  ∀ p, p.TakesSome → ∀ text, Finds p true 0 text (search p text)

variable {p : Pattern} {fresh : Bool} {i : Nat} {s t : List Char} {w : Way} {hits : List Hit}

theorem TakesSome.ways_nil (hp : p.TakesSome) (fresh : Bool) : p.ways fresh [] = [] := by
  rw [List.eq_nil_iff_forall_not_mem]
  intro w hw
  exact hp fresh [] w hw (List.append_eq_nil_iff.mp (taken_append_rest hw)).1

/-! What is found. -/

theorem Finds.start_le (h : Finds p fresh i s hits) : ∀ x ∈ hits, i ≤ x.start := by
  induction h with
  | done => exact List.forall_mem_nil _
  | pass _ _ ih =>
    intro x hx
    have hle := ih x hx
    omega
  | hit _ _ _ ih =>
    refine List.forall_mem_cons.mpr ⟨Nat.le_refl _, fun x hx => ?_⟩
    have hle := ih x hx
    omega

theorem Finds.stop_le (h : Finds p fresh i s hits) : ∀ x ∈ hits, x.stop ≤ i + s.length := by
  induction h with
  | done => exact List.forall_mem_nil _
  | pass _ _ ih =>
    intro x hx
    have hle := ih x hx
    rw [List.length_cons]
    omega
  | @hit fresh i s w hits hw _ _ ih =>
    have hlen : w.taken.length + w.rest.length = s.length := by
      rw [← List.length_append, taken_append_rest (List.mem_of_mem_head? hw)]
    refine List.forall_mem_cons.mpr ⟨?_, fun x hx => ?_⟩
    · change i + w.taken.length ≤ i + s.length
      omega
    · have hle := ih x hx
      omega

/-- No match begins before the one found before it has ended. -/
theorem Finds.apart (h : Finds p fresh i s hits) :
    hits.Pairwise fun x y => x.stop ≤ y.start := by
  induction h with
  | done => exact .nil
  | pass _ _ ih => exact ih
  | hit _ _ hrest ih => exact .cons hrest.start_le ih

theorem Finds.matches (h : Finds p fresh i s hits) : ∀ x ∈ hits, ∃ before rest,
    s = before ++ (x.taken ++ rest) ∧ x.start = i + before.length ∧ x.taken ≠ [] ∧
      ⟨x.taken, rest, x.groups⟩ ∈ p.ways (freshAfter fresh before) (x.taken ++ rest) := by
  induction h with
  | done => exact List.forall_mem_nil _
  | @pass fresh i c s hits _ _ ih =>
    intro x hx
    obtain ⟨before, rest, rfl, hstart, hne, hway⟩ := ih x hx
    refine ⟨c :: before, rest, rfl, ?_, hne, ?_⟩
    · rw [hstart, List.length_cons]
      omega
    · rwa [freshAfter_cons]
  | @hit fresh i s w hits hw hne _ ih =>
    have hmem := List.mem_of_mem_head? hw
    have htaken := taken_append_rest hmem
    refine List.forall_mem_cons.mpr ⟨⟨[], w.rest, htaken.symm, rfl, hne, ?_⟩, fun x hx => ?_⟩
    · rwa [htaken]
    · obtain ⟨before, rest, hrest, hstart, hne, hway⟩ := ih x hx
      refine ⟨w.taken ++ before, rest, ?_, ?_, hne, ?_⟩
      · rw [List.append_assoc, ← hrest, htaken]
      · rw [hstart, List.length_append]
        omega
      · rwa [freshAfter_append]

theorem Finds.start_lt_stop (h : Finds p fresh i s hits) : ∀ x ∈ hits, x.start < x.stop := by
  intro x hx
  obtain ⟨_, _, -, -, hne, -⟩ := h.matches x hx
  exact Nat.lt_add_of_pos_right (List.length_pos_iff.mpr hne)

/-- Where there is a match, one is found that begins there or goes on there. -/
theorem Finds.leftmost (h : Finds p fresh i s hits) (hp : p.TakesSome) {before : List Char}
    (hs : s = before ++ t) (hw : w ∈ p.ways (freshAfter fresh before) t) :
    ∃ x ∈ hits, x.start ≤ i + before.length ∧ i + before.length < x.stop := by
  induction h generalizing before with
  | done _ =>
    obtain ⟨-, rfl⟩ := List.append_eq_nil_iff.mp hs.symm
    rw [hp.ways_nil] at hw
    cases hw
  | @pass fresh i c s hits hnone _ ih =>
    cases before with
    | nil =>
      obtain rfl : c :: s = t := hs
      rw [show freshAfter fresh [] = fresh from rfl, hnone] at hw
      cases hw
    | cons d before =>
      obtain ⟨rfl, rfl⟩ := List.cons.inj hs
      rw [freshAfter_cons] at hw
      obtain ⟨x, hx, hstart, hstop⟩ := ih rfl hw
      refine ⟨x, hx, ?_⟩
      rw [List.length_cons]
      omega
  | @hit fresh i s v hits hv _ _ ih =>
    have htaken := taken_append_rest (List.mem_of_mem_head? hv)
    have hinside : before.length < v.taken.length →
        ∃ x ∈ (⟨i, v.taken, v.groups⟩ : Hit) :: hits,
          x.start ≤ i + before.length ∧ i + before.length < x.stop := by
      intro hlt
      exact ⟨_, List.mem_cons_self, Nat.le_add_right .., Nat.add_lt_add_left hlt i⟩
    have hbehind : ∀ more, before = v.taken ++ more → v.rest = more ++ t →
        ∃ x ∈ (⟨i, v.taken, v.groups⟩ : Hit) :: hits,
          x.start ≤ i + before.length ∧ i + before.length < x.stop := by
      rintro more rfl hrest
      rw [freshAfter_append] at hw
      obtain ⟨x, hx, hstart, hstop⟩ := ih hrest hw
      refine ⟨x, List.mem_cons_of_mem _ hx, ?_⟩
      rw [List.length_append]
      omega
    rcases List.append_eq_append_iff.mp (htaken.trans hs) with
      ⟨more, hbefore, hrest⟩ | ⟨more, hmore, hrest⟩
    · exact hbehind more hbefore hrest
    · cases more with
      | nil => exact hbehind [] (by simpa using hmore.symm) hrest.symm
      | cons c more =>
        apply hinside
        rw [hmore, List.length_append, List.length_cons]
        omega

/-- The matches found in two texts with a line feed between them are those found in the first text and
then those found in the second. -/
theorem Finds.split (h : Finds p fresh i t hits) (hp : p.TakesSome) (hline : p.Inline)
    {a b : List Char} (ht : t = a ++ '\n' :: b) :
    ∃ first more, hits = first ++ more ∧ Finds p fresh i a first ∧
      Finds p true (i + a.length + 1) b more := by
  induction h generalizing a with
  | done _ => exact absurd ht.symm (by simp)
  | @pass fresh i c s hits hnone hrest ih =>
    cases a with
    | nil =>
      obtain ⟨rfl, rfl⟩ := List.cons.inj ht
      exact ⟨[], hits, rfl, .done (hp.ways_nil fresh), hrest⟩
    | cons d a =>
      rw [List.cons_append] at ht
      obtain ⟨rfl, rfl⟩ := List.cons.inj ht
      obtain ⟨first, more, rfl, hfirst, hmore⟩ := ih rfl
      rw [← List.cons_append, ways_append hline, List.map_eq_nil_iff] at hnone
      refine ⟨first, more, rfl, .pass hnone hfirst, ?_⟩
      have hplace : i + (c :: a).length + 1 = i + 1 + a.length + 1 := by
        rw [List.length_cons]
        omega
      rwa [hplace]
  | @hit fresh i s w hits hw hne hrest ih =>
    subst ht
    rw [ways_append hline, List.head?_map, Option.map_eq_some_iff] at hw
    obtain ⟨v, hv, rfl⟩ := hw
    obtain ⟨first, more, rfl, hfirst, hmore⟩ := ih rfl
    refine ⟨⟨i, v.taken, v.groups⟩ :: first, more, rfl, .hit hv hne hfirst, ?_⟩
    have hplace : i + a.length + 1 = i + v.taken.length + v.rest.length + 1 := by
      rw [← taken_append_rest (List.mem_of_mem_head? hv), List.length_append]
      omega
    rwa [hplace]

/-! A search. -/

/-- Searches a text but for its first `skip` characters, which belong to a match found before. -/
def searchFrom (p : Pattern) (fresh : Bool) (skip i : Nat) : List Char → List Hit
  | [] => []
  | c :: s =>
    match skip with
    | skip + 1 => searchFrom p (c == '\n') skip (i + 1) s
    | 0 =>
      match (p.ways fresh (c :: s)).head? with
      | none => searchFrom p (c == '\n') 0 (i + 1) s
      | some w =>
        ⟨i, w.taken, w.groups⟩ :: searchFrom p (c == '\n') (w.taken.length - 1) (i + 1) s

def backtrack (p : Pattern) (text : List Char) : List Hit := searchFrom p true 0 0 text

theorem searchFrom_skip (p : Pattern) (fresh : Bool) (i : Nat) (before s : List Char) :
    searchFrom p fresh before.length i (before ++ s) =
      searchFrom p (freshAfter fresh before) 0 (i + before.length) s := by
  induction before generalizing fresh i with
  | nil => rfl
  | cons c before ih =>
    have hplace : i + (c :: before).length = i + 1 + before.length := by
      rw [List.length_cons]
      omega
    rw [freshAfter_cons, hplace]
    exact ih (c == '\n') (i + 1)

theorem finds_searchFrom (hp : p.TakesSome) (fresh : Bool) (i : Nat) (s : List Char) :
    Finds p fresh i s (searchFrom p fresh 0 i s) := by
  induction hn : s.length using Nat.strongRecOn generalizing fresh i s with
  | ind n ih =>
    cases s with
    | nil => exact .done (hp.ways_nil fresh)
    | cons c s =>
      rw [searchFrom]
      cases hw : (p.ways fresh (c :: s)).head? with
      | none =>
        exact .pass (List.head?_eq_none_iff.mp hw) (ih s.length (by simp [← hn]) _ _ s rfl)
      | some w =>
        have hmem := List.mem_of_mem_head? hw
        have htaken := taken_append_rest hmem
        obtain ⟨d, taken, hd⟩ := List.exists_cons_of_ne_nil (hp _ _ w hmem)
        rw [hd, List.cons_append] at htaken
        obtain ⟨rfl, rfl⟩ := List.cons.inj htaken
        have hshorter : w.rest.length < n := by
          rw [← hn, List.length_cons, List.length_append]
          omega
        have hskip : searchFrom p (d == '\n') (w.taken.length - 1) (i + 1) (taken ++ w.rest) =
            searchFrom p (freshAfter fresh w.taken) 0 (i + w.taken.length) w.rest := by
          have hplace : i + (d :: taken).length = i + 1 + taken.length := by
            rw [List.length_cons]
            omega
          rw [hd, freshAfter_cons, hplace]
          exact searchFrom_skip p (d == '\n') (i + 1) taken w.rest
        have hbehind := ih w.rest.length hshorter (freshAfter fresh w.taken)
          (i + w.taken.length) w.rest rfl
        rw [← hskip] at hbehind
        exact .hit hw (hp _ _ w hmem) hbehind

theorem isSearch_backtrack : IsSearch backtrack := fun _ hp text =>
  finds_searchFrom hp true 0 text

end Manuscript.Pattern
