import Mathlib.Data.Finset.Card
import Mathlib.Data.Finset.Dedup
import Mathlib.Data.List.Nodup
import Manuscript.Bibliography.Basic
import Manuscript.Proofs.Gather

/-! Numbers of bibliography entries. The entries are the first sources of each key, each at the place
its number says, and sources that come later only add entries at the end, so that a key which is found
keeps its entry. -/
namespace Manuscript.Bibliography

variable {b b' : Bibliography} {key : String} {e : Entry}

def keys (b : Bibliography) : List String := b.entries.map Entry.key

theorem length_keys (b : Bibliography) : b.keys.length = b.size := List.length_map ..

theorem lookup?_eq_none_iff : b.lookup? key = none ↔ key ∉ b.keys := by
  simp [lookup?, keys]

theorem key_of_lookup? (h : b.lookup? key = some e) : e.key = key := by
  simpa using List.find?_some h

theorem mem_of_lookup? (h : b.lookup? key = some e) : e ∈ b.entries :=
  List.mem_of_find?_eq_some h

theorem add_of_mem {s : Source} (h : s.key ∈ b.keys) : b.add s = b := by
  cases hl : b.lookup? s.key with
  | none => exact absurd h (lookup?_eq_none_iff.mp hl)
  | some e => simp [add, hl]

theorem entries_add_of_notMem {s : Source} (h : s.key ∉ b.keys) :
    (b.add s).entries = b.entries ++ [⟨s.key, b.size + 1, s.text⟩] := by
  simp [add, lookup?_eq_none_iff.mpr h]

theorem keys_add_of_notMem {s : Source} (h : s.key ∉ b.keys) :
    (b.add s).keys = b.keys ++ [s.key] := by
  simp [keys, entries_add_of_notMem h]

theorem entries_prefix_add (b : Bibliography) (s : Source) : b.entries <+: (b.add s).entries := by
  by_cases h : s.key ∈ b.keys
  · simp [add_of_mem h]
  · rw [entries_add_of_notMem h]
    exact List.prefix_append ..

def Numbered (b : Bibliography) : Prop := ∀ n e, b.entries[n]? = some e → e.number = n + 1

theorem numbered_add (h : Numbered b) (s : Source) : Numbered (b.add s) := by
  by_cases hs : s.key ∈ b.keys
  · rw [add_of_mem hs]
    exact h
  · intro n e he
    rw [entries_add_of_notMem hs] at he
    rcases Nat.lt_or_ge n b.entries.length with hn | hn
    · rw [List.getElem?_append_left hn] at he
      exact h n e he
    · rw [List.getElem?_append_right hn, List.getElem?_singleton] at he
      split at he
      · have hlast : n = b.entries.length := by omega
        rw [← Option.some.inj he, hlast]
        rfl
      · cases he

/-! Runs over all sources. -/

variable {sources others : List Source}

theorem ofSources_concat (sources : List Source) (s : Source) :
    ofSources (sources ++ [s]) = (ofSources sources).add s := by
  simp [ofSources]

theorem numbered_ofSources (sources : List Source) : Numbered (ofSources sources) := by
  induction sources using List.reverseRecOn with
  | nil =>
    intro n e he
    cases he
  | append_singleton sources s ih =>
    rw [ofSources_concat]
    exact numbered_add ih s

theorem keys_ofSources (sources : List Source) :
    (ofSources sources).keys = (sources.map Source.key).eraseDups := by
  induction sources using List.reverseRecOn with
  | nil => rfl
  | append_singleton sources s ih =>
    rw [ofSources_concat, List.map_append, List.map_singleton]
    by_cases h : s.key ∈ sources.map Source.key
    · have hb : s.key ∈ (ofSources sources).keys := by
        rw [ih]
        exact List.mem_eraseDups.mpr h
      rw [add_of_mem hb, eraseDups_concat_of_mem h, ih]
    · have hb : s.key ∉ (ofSources sources).keys := by
        rw [ih]
        exact fun hm => h (List.mem_eraseDups.mp hm)
      rw [keys_add_of_notMem hb, eraseDups_concat_of_notMem h, ih]

theorem mem_keys_ofSources : key ∈ (ofSources sources).keys ↔ key ∈ sources.map Source.key := by
  rw [keys_ofSources, List.mem_eraseDups]

theorem size_ofSources (sources : List Source) :
    (ofSources sources).size = (sources.map Source.key).eraseDups.length := by
  rw [← length_keys, keys_ofSources]

theorem entries_prefix_ofSources_append (sources others : List Source) :
    (ofSources sources).entries <+: (ofSources (sources ++ others)).entries := by
  induction others using List.reverseRecOn with
  | nil => simp
  | append_singleton others s ih =>
    rw [← List.append_assoc, ofSources_concat]
    exact ih.trans (entries_prefix_add ..)

/-! What a numbered bibliography finds. -/

theorem Numbered.getElem?_of_lookup? (h : Numbered b) (hl : b.lookup? key = some e) :
    1 ≤ e.number ∧ e.number ≤ b.size ∧ b.entries[e.number - 1]? = some e := by
  obtain ⟨n, hn⟩ := List.mem_iff_getElem?.mp (mem_of_lookup? hl)
  have hlt : n < b.size := (List.getElem?_eq_some_iff.mp hn).1
  rw [h n e hn]
  exact ⟨Nat.le_add_left 1 n, hlt, hn⟩

theorem lookup?_of_prefix (h : b.entries <+: b'.entries) (hl : b.lookup? key = some e) :
    b'.lookup? key = some e :=
  h.find?_eq_some hl

theorem Numbered.size_lt_number (h' : Numbered b') (h : b.entries <+: b'.entries)
    (hnone : b.lookup? key = none) (hl : b'.lookup? key = some e) : b.size < e.number := by
  obtain ⟨hpos, -, he⟩ := h'.getElem?_of_lookup? hl
  by_contra hle
  obtain ⟨more, hmore⟩ := h
  have hlt : e.number - 1 < b.entries.length := by
    have : e.number ≤ b.entries.length := Nat.le_of_not_lt hle
    omega
  rw [← hmore, List.getElem?_append_left hlt] at he
  have hmem : e.key ∈ b.keys := List.mem_map_of_mem (List.mem_of_getElem? he)
  rw [key_of_lookup? hl] at hmem
  exact lookup?_eq_none_iff.mp hnone hmem

/-! First sources -/

def firsts (sources : List Source) : List Source :=
  (sources.zipIdx.filter fun p => p.1.key ∉ (sources.take p.2).map Source.key).map Prod.fst

theorem firsts_concat (sources : List Source) (s : Source) :
    firsts (sources ++ [s]) =
      firsts sources ++ if s.key ∈ sources.map Source.key then [] else [s] := by
  have hold : (sources.zipIdx.filter fun p =>
        p.1.key ∉ ((sources ++ [s]).take p.2).map Source.key) =
      sources.zipIdx.filter fun p => p.1.key ∉ (sources.take p.2).map Source.key := by
    apply List.filter_congr
    intro p hp
    have hlt : p.2 < sources.length := by
      have := (List.mem_zipIdx hp).2.1
      omega
    rw [List.take_append_of_le_length hlt.le]
  rw [firsts, List.zipIdx_append, List.filter_append, List.map_append, hold, firsts]
  congr 1
  by_cases hs : s.key ∈ sources.map Source.key
  · simp [hs]
  · simp [hs]

theorem entries_ofSources (sources : List Source) :
    (ofSources sources).entries =
      (firsts sources).mapIdx fun i s => ⟨s.key, i + 1, s.text⟩ := by
  induction sources using List.reverseRecOn with
  | nil => rfl
  | append_singleton sources s ih =>
    have hsize : (ofSources sources).size = (firsts sources).length := by
      rw [size, ih, List.length_mapIdx]
    rw [ofSources_concat, firsts_concat]
    by_cases hs : s.key ∈ sources.map Source.key
    · rw [add_of_mem (mem_keys_ofSources.mpr hs), if_pos hs, List.append_nil]
      exact ih
    · rw [entries_add_of_notMem (mt mem_keys_ofSources.mp hs), if_neg hs, List.mapIdx_concat, ih,
        hsize]

theorem size_ofSources_eq_card (sources : List Source) :
    (ofSources sources).size = (sources.map Source.key).toFinset.card := by
  have hkeys : (sources.map Source.key).eraseDups.toFinset =
      (sources.map Source.key).toFinset := by
    ext key
    simp
  rw [size_ofSources, ← hkeys, List.toFinset_card_of_nodup (nodup_eraseDups _)]

theorem ofSources_without {before after : List Source} {s : Source}
    (hs : s.key ∈ before.map Source.key) :
    ofSources (before ++ s :: after) = ofSources (before ++ after) := by
  have hkept : (ofSources before).add s = ofSources before :=
    add_of_mem (mem_keys_ofSources.mpr hs)
  rw [ofSources, List.foldl_append, List.foldl_cons]
  change after.foldl add ((ofSources before).add s) = _
  rw [hkept, ofSources, ofSources, List.foldl_append]

theorem nodup_keys_ofSources (sources : List Source) : (ofSources sources).keys.Nodup := by
  rw [keys_ofSources]
  exact nodup_eraseDups _

theorem lookup?_eq_some_iff (hkeys : b.keys.Nodup) :
    b.lookup? key = some e ↔ e ∈ b.entries ∧ e.key = key := by
  constructor
  · intro h
    exact ⟨mem_of_lookup? h, key_of_lookup? h⟩
  · rintro ⟨he, rfl⟩
    cases hl : b.lookup? e.key with
    | none => exact absurd (List.mem_map_of_mem he) (lookup?_eq_none_iff.mp hl)
    | some e' =>
      rw [List.inj_on_of_nodup_map hkeys (mem_of_lookup? hl) he (key_of_lookup? hl)]

end Manuscript.Bibliography
