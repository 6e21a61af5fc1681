import Std.Data.HashMap.Lemmas
import Manuscript.Proofs.Bibliography.Numbering

/-! A bibliography with a map from each key to the place of its entry. Entries and map are extended
together and read apart from each other; after every source the map tells where each key stands, so
that a key looked up by its place has the entry that a search of all entries finds. -/
namespace Manuscript.Bibliography

structure Indexed where
  entries : List Entry
  places : Std.HashMap String Nat

namespace Indexed

def add (x : Indexed) (s : Source) : Indexed :=
  if x.places.contains s.key then x
  else ⟨x.entries ++ [⟨s.key, x.entries.length + 1, s.text⟩],
    x.places.insert s.key x.entries.length⟩

def ofSources (sources : List Source) : Indexed := sources.foldl add ⟨[], ∅⟩

def lookup? (x : Indexed) (key : String) : Option Entry :=
  x.places[key]?.bind fun n => x.entries[n]?

/-- The entries are those of the bibliography, and the map tells where each key stands. -/
structure Agrees (x : Indexed) (b : Bibliography) : Prop where
  entries : x.entries = b.entries
  places : ∀ (key : String) (n : Nat), x.places[key]? = some n ↔ b.keys[n]? = some key

variable {x : Indexed} {b : Bibliography} {key : String} {e : Entry}

theorem getElem?_concat_eq_some_iff {α : Type} {l : List α} {a c : α} {n : Nat} :
    (l ++ [a])[n]? = some c ↔ l[n]? = some c ∨ (n = l.length ∧ a = c) := by
  rcases Nat.lt_trichotomy n l.length with hn | hn | hn
  · simp [List.getElem?_append_left hn, hn.ne]
  · simp [hn]
  · have hlen : (l ++ [a]).length ≤ n := by
      rw [List.length_append, List.length_singleton]
      omega
    simp [List.getElem?_eq_none hlen, List.getElem?_eq_none hn.le, hn.ne']

theorem Agrees.length_entries (h : x.Agrees b) : x.entries.length = b.keys.length := by
  rw [h.entries, length_keys]
  rfl

theorem Agrees.contains_iff (h : x.Agrees b) (key : String) :
    x.places.contains key = true ↔ key ∈ b.keys := by
  rw [Std.HashMap.contains_eq_isSome_getElem?, Option.isSome_iff_exists, List.mem_iff_getElem?]
  exact exists_congr (h.places key)

theorem Agrees.add (h : x.Agrees b) (s : Source) : (x.add s).Agrees (b.add s) := by
  have hcontains := h.contains_iff s.key
  by_cases hs : s.key ∈ b.keys
  · rw [Indexed.add, if_pos (hcontains.mpr hs), add_of_mem hs]
    exact h
  · rw [Indexed.add, if_neg (mt hcontains.mp hs)]
    refine ⟨?_, fun key n => ?_⟩
    · rw [entries_add_of_notMem hs, h.entries]
      rfl
    · rw [keys_add_of_notMem hs, Std.HashMap.getElem?_insert, h.length_entries,
        getElem?_concat_eq_some_iff, ← h.places key n]
      -- the new key had no place, and every other key keeps its place
      by_cases hkey : s.key = key
      · have hnone : x.places[key]? = none := by
          rw [← hkey]
          apply Std.HashMap.getElem?_eq_none_of_contains_eq_false
          exact Bool.eq_false_iff.mpr (mt hcontains.mp hs)
        simp [hkey, hnone, eq_comm]
      · simp [hkey]

theorem agrees_ofSources (sources : List Source) :
    (ofSources sources).Agrees (Bibliography.ofSources sources) := by
  induction sources using List.reverseRecOn with
  | nil => exact ⟨rfl, by simp [ofSources, Bibliography.ofSources, keys]⟩
  | append_singleton sources s ih =>
    rw [ofSources_concat, ofSources, List.foldl_append]
    exact ih.add s

theorem Agrees.lt_length (h : x.Agrees b) {n : Nat} (hn : x.places[key]? = some n) :
    n < x.entries.length := by
  rw [h.length_entries]
  exact (List.getElem?_eq_some_iff.mp ((h.places key n).mp hn)).1

theorem Agrees.lookup?_eq (h : x.Agrees b) (hkeys : b.keys.Nodup) (key : String) :
    x.lookup? key = b.lookup? key := by
  cases hn : x.places[key]? with
  | none =>
    have hkey : key ∉ b.keys := by
      rw [← h.contains_iff, Std.HashMap.contains_eq_isSome_getElem?, hn]
      exact Bool.false_ne_true
    rw [lookup?, hn, lookup?_eq_none_iff.mpr hkey]
    rfl
  | some n =>
    have hplace : b.entries[n]?.map Entry.key = some key := by
      rw [← List.getElem?_map]
      exact (h.places key n).mp hn
    obtain ⟨e, he, hekey⟩ := Option.map_eq_some_iff.mp hplace
    rw [lookup?, hn, (lookup?_eq_some_iff hkeys).mpr ⟨List.mem_of_getElem? he, hekey⟩, ← he,
      ← h.entries]
    rfl

end Indexed

/-- The entries are the first sources of each key in their order, numbered from one up to the number of
keys; a key is looked up at its place and has its entry there exactly if some source has it; and a
source whose key came before changes nothing. -/
theorem numbering_of_sources (sources : List Source) :
    let b := ofSources sources
    let x := Indexed.ofSources sources
    (b.entries = (firsts sources).mapIdx fun i s => ⟨s.key, i + 1, s.text⟩) ∧
      b.size = (sources.map Source.key).toFinset.card ∧
      x.entries = b.entries ∧
      (∀ (key : String) (n : Nat), x.places[key]? = some n → n < x.entries.length) ∧
      (∀ key, x.lookup? key = b.lookup? key) ∧
      (∀ key e, b.lookup? key = some e ↔ e ∈ b.entries ∧ e.key = key) ∧
      (∀ key, b.lookup? key = none ↔ key ∉ sources.map Source.key) ∧
      ∀ before s after, sources = before ++ s :: after → s.key ∈ before.map Source.key →
        b = ofSources (before ++ after) := by
  intro b x
  have hagrees : x.Agrees b := Indexed.agrees_ofSources sources
  have hkeys : b.keys.Nodup := nodup_keys_ofSources sources
  refine ⟨entries_ofSources sources, size_ofSources_eq_card sources, hagrees.entries, ?_, ?_, ?_,
    ?_, ?_⟩
  · intro key n hn
    exact hagrees.lt_length hn
  · exact hagrees.lookup?_eq hkeys
  · intro key e
    exact lookup?_eq_some_iff hkeys
  · intro key
    rw [lookup?_eq_none_iff, mem_keys_ofSources]
  · intro before s after hsources hs
    have hb : b = ofSources (before ++ s :: after) := congrArg ofSources hsources
    rw [hb, ofSources_without hs]

theorem numbering_of_sources_repeated :
    let sources : List Source := [⟨"a", "first"⟩, ⟨"b", "second"⟩, ⟨"a", "shadowed"⟩, ⟨"c", "third"⟩]
    (ofSources sources).entries = [⟨"a", 1, "first"⟩, ⟨"b", 2, "second"⟩, ⟨"c", 3, "third"⟩] ∧
      (Indexed.ofSources sources).lookup? "a" = some ⟨"a", 1, "first"⟩ ∧
      ofSources sources = ofSources [⟨"a", "first"⟩, ⟨"b", "second"⟩, ⟨"c", "third"⟩] := by
  intro sources
  obtain ⟨hentries, -, -, -, hplace, hlookup, -, hwithout⟩ := numbering_of_sources sources
  refine ⟨hentries, ?_, ?_⟩
  · rw [hplace, hlookup, hentries]
    decide
  · exact hwithout [⟨"a", "first"⟩, ⟨"b", "second"⟩] ⟨"a", "shadowed"⟩ [⟨"c", "third"⟩] rfl (by decide)

end Manuscript.Bibliography
