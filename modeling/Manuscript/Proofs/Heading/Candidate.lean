import Mathlib.Data.Finset.Card
import Mathlib.Data.Nat.Find
import Mathlib.Logic.Function.Iterate
import Mathlib.Order.Bounds.Defs
import Manuscript.Proofs.Heading.Slugged

/-! The search for a free slug, one candidate after the other: the base, then `base-1`, `base-2`, … A
candidate that is tried is marked as taken at once, which changes nothing if it was taken before, so every
one is tried against the same slugs. The candidates are all different, and one of them is free before there
are more of them than taken slugs. Main statement: the search ends with the first free candidate, and that
slug alone is taken in addition. -/
namespace Manuscript.Slug

def take (taken : Finset String) (slug : String) : Bool × Finset String :=
  (slug ∉ taken, insert slug taken)

def candidate (base : String) : Nat → String
  | 0 => base
  | n + 1 => base ++ "-" ++ toString (n + 1)

inductive Search
  | trying (n : Nat) (taken : Finset String)
  | found (slug : String) (taken : Finset String)

def Search.next (base : String) : Search → Search
  | trying n taken =>
    match take taken (candidate base n) with
    | (true, taken) => found (candidate base n) taken
    | (false, taken) => trying (n + 1) taken
  | found slug taken => found slug taken

variable {base slug : String} {used : List String} {taken : Finset String} {m n : Nat}

theorem suffixed_eq (base : String) (n : Nat) :
    Allocator.suffixed base n = base ++ "-" ++ toString n := by
  rw [Allocator.suffixed, Text.decimal_eq_toString]

theorem candidate_of_pos (h : 1 ≤ n) : candidate base n = base ++ "-" ++ toString n := by
  cases n with
  | zero => cases h
  | succ n => rfl

theorem ne_numbered (base : String) (n : Nat) : base ≠ base ++ "-" ++ toString n := by
  intro h
  have hlength := congrArg String.length h
  have hdash : "-".length = 1 := rfl
  rw [String.length_append, String.length_append, hdash] at hlength
  omega

theorem candidate_injective (base : String) : Function.Injective (candidate base) := by
  intro m n h
  cases m with
  | zero =>
    cases n with
    | zero => rfl
    | succ n => exact absurd h (ne_numbered base (n + 1))
  | succ m =>
    cases n with
    | zero => exact absurd h.symm (ne_numbered base (m + 1))
    | succ n =>
      have hsuffixed : Allocator.suffixed base (m + 1) = Allocator.suffixed base (n + 1) := by
        rw [suffixed_eq, suffixed_eq]
        exact h
      exact Allocator.suffixed_injective hsuffixed

/-! The first free candidate. -/

structure FirstAt (taken : Finset String) (base : String) (n : Nat) : Prop where
  free : candidate base n ∉ taken
  earlier : ∀ m < n, candidate base m ∈ taken

theorem FirstAt.unique (hm : FirstAt taken base m) (hn : FirstAt taken base n) : m = n := by
  rcases Nat.lt_trichotomy m n with hlt | heq | hgt
  · exact absurd (hn.earlier m hlt) hm.free
  · exact heq
  · exact absurd (hm.earlier n hgt) hn.free

theorem firstAt_zero_iff : FirstAt taken base 0 ↔ base ∉ taken :=
  ⟨fun h => h.free, fun h => ⟨h, nofun⟩⟩

theorem exists_free_candidate (taken : Finset String) (base : String) :
    ∃ n ≤ taken.card, candidate base n ∉ taken := by
  by_contra hnone
  have hmaps : ∀ n ∈ Finset.range (taken.card + 1), candidate base n ∈ taken := by
    intro n hn
    by_contra hfree
    exact hnone ⟨n, Nat.le_of_lt_succ (Finset.mem_range.mp hn), hfree⟩
  have hcard := Finset.card_le_card_of_injOn (candidate base) hmaps (candidate_injective base).injOn
  rw [Finset.card_range] at hcard
  omega

theorem exists_firstAt (taken : Finset String) (base : String) :
    ∃ n ≤ taken.card, FirstAt taken base n := by
  obtain ⟨k, hk, hfree⟩ := exists_free_candidate taken base
  have hex : ∃ n, candidate base n ∉ taken := ⟨k, hfree⟩
  refine ⟨Nat.find hex, (Nat.find_min' hex hfree).trans hk, Nat.find_spec hex, ?_⟩
  intro m hm
  exact not_not.mp (Nat.find_min hex hm)

theorem FirstAt.isLeast (h : FirstAt taken base n) (hbase : base ∈ taken) :
    IsLeast {m | 1 ≤ m ∧ base ++ "-" ++ toString m ∉ taken} n ∧
      candidate base n = base ++ "-" ++ toString n := by
  have hpos : 1 ≤ n := by
    rw [Nat.one_le_iff_ne_zero]
    rintro rfl
    exact h.free hbase
  have hcandidate : candidate base n = base ++ "-" ++ toString n := candidate_of_pos hpos
  refine ⟨⟨⟨hpos, hcandidate ▸ h.free⟩, ?_⟩, hcandidate⟩
  rintro m ⟨hm, hfree⟩
  rw [← candidate_of_pos hm] at hfree
  exact Nat.le_of_not_lt fun hlt => hfree (h.earlier m hlt)

/-! Runs of the search. -/

namespace Search

theorem next_of_mem (h : candidate base n ∈ taken) :
    next base (trying n taken) = trying (n + 1) taken := by
  simp [next, take, h]

theorem next_of_notMem (h : candidate base n ∉ taken) : next base (trying n taken) =
    found (candidate base n) (insert (candidate base n) taken) := by
  simp [next, take, h]

theorem iterate_next_of_mem (h : ∀ m < n, candidate base m ∈ taken) :
    (next base)^[n] (trying 0 taken) = trying n taken := by
  induction n with
  | zero => rfl
  | succ n ih =>
    rw [Function.iterate_succ_apply', ih fun m hm => h m (Nat.lt_succ_of_lt hm)]
    exact next_of_mem (h n (Nat.lt_succ_self n))

theorem iterate_next_of_firstAt (h : FirstAt taken base n) : (next base)^[n + 1] (trying 0 taken) =
    found (candidate base n) (insert (candidate base n) taken) := by
  rw [Function.iterate_succ_apply', iterate_next_of_mem h.earlier]
  exact next_of_notMem h.free

end Search

namespace Allocator

theorem baseOf_eq (text : String) : baseOf text = if text = "" then "section" else text := by
  simp [baseOf]

theorem FirstFree.exists_firstAt (h : FirstFree used base slug) :
    ∃ n, FirstAt used.toFinset base n ∧ slug = candidate base n := by
  obtain ⟨hfree, rfl | ⟨hbase, n, hn, rfl, hearlier⟩⟩ := h
  · exact ⟨0, firstAt_zero_iff.mpr (mt List.mem_toFinset.mp hfree), rfl⟩
  · rw [suffixed_eq, ← candidate_of_pos hn] at hfree ⊢
    refine ⟨n, ⟨mt List.mem_toFinset.mp hfree, fun m hm => ?_⟩, rfl⟩
    rw [List.mem_toFinset]
    cases m with
    | zero => exact hbase
    | succ m =>
      have := hearlier (m + 1) (Nat.le_add_left 1 m) hm
      rwa [suffixed_eq] at this

theorem choose_of_firstAt (a : Allocator) (text : String)
    (h : FirstAt a.used.toFinset (baseOf text) n) :
    a.choose text = candidate (baseOf text) n := by
  obtain ⟨m, hm, hslug⟩ := (firstFree_choose a text).exists_firstAt
  rw [hslug, hm.unique h]

/-- Whatever slugs are taken, trying the base, `base-1`, `base-2`, … ends, after one try more than there
are taken slugs at the latest. The slug found is the base if it was free, else the one with the least
number from one on that was free, and it alone is taken in addition. An allocator that holds these slugs
gives out this slug, and afterwards it holds the same slugs as the search. -/
theorem allocate_least_free (taken : Finset String) (text : String) :
    let base := if text = "" then "section" else text
    ∃ slug, (∃ tries ≤ taken.card + 1,
        (Search.next base)^[tries] (.trying 0 taken) = .found slug (insert slug taken)) ∧
      slug ∉ taken ∧ (base ∉ taken → slug = base) ∧
      (base ∈ taken → ∃ n, IsLeast {m | 1 ≤ m ∧ base ++ "-" ++ toString m ∉ taken} n ∧
        slug = base ++ "-" ++ toString n) ∧
      ∀ a : Allocator, a.used.toFinset = taken →
        (a.allocate text).1 = slug ∧ (a.allocate text).2.used.toFinset = insert slug taken := by
  intro base
  obtain ⟨n, hn, hfirst⟩ := exists_firstAt taken base
  refine ⟨candidate base n, ⟨n + 1, Nat.succ_le_succ hn, Search.iterate_next_of_firstAt hfirst⟩,
    hfirst.free, ?_, fun hbase => ⟨n, hfirst.isLeast hbase⟩, ?_⟩
  · intro hbase
    rw [hfirst.unique (firstAt_zero_iff.mpr hbase)]
    rfl
  · rintro a rfl
    have hslug : a.choose text = candidate base n := by
      have hbase : baseOf text = base := baseOf_eq text
      rw [← hbase] at hfirst ⊢
      exact choose_of_firstAt a text hfirst
    rw [allocate, hslug, List.toFinset_cons]
    exact ⟨rfl, rfl⟩

theorem allocate_least_free_gap :
    let taken : Finset String := {"a", "a-1", "a-3"}
    let a : Allocator := ⟨["a-3", "a", "a-1", "a"]⟩
    "a" ∈ taken ∧ "b" ∉ taken ∧ a.used.toFinset = taken ∧ (a.allocate "a").1 = "a-2" ∧
      (a.allocate "a").2.used.toFinset = {"a", "a-1", "a-2", "a-3"} ∧
      (a.allocate "b").1 = "b" := by
  intro taken a
  have hheld : a.used.toFinset = taken := by decide
  have ha : "a" ∈ taken := by decide
  have hb : "b" ∉ taken := by decide
  obtain ⟨slug, -, -, -, hnumbered, hgiven⟩ := allocate_least_free taken "a"
  obtain ⟨n, ⟨⟨hpos, hfree⟩, hleast⟩, hslug⟩ := hnumbered ha
  obtain ⟨slug', -, -, hbase, -, hgiven'⟩ := allocate_least_free taken "b"
  have hn : n ≤ 2 := hleast ⟨by decide, by decide⟩
  have htwo : n = 2 := by
    rcases Nat.lt_or_ge n 2 with hlt | hge
    · obtain rfl : n = 1 := by omega
      exact absurd (by decide : "a" ++ "-" ++ toString 1 ∈ taken) hfree
    · omega
  have htaken : slug = "a-2" := by
    rw [hslug, htwo]
    rfl
  obtain ⟨hgives, hholds⟩ := hgiven a hheld
  rw [htaken] at hgives hholds
  exact ⟨ha, hb, hheld, hgives, hholds.trans (by decide), (hgiven' a hheld).1.trans (hbase hb)⟩

end Allocator
end Manuscript.Slug
