import Mathlib.Data.List.Perm.Basic
import Manuscript.Proofs.Heading.Searched

/-! The headings of a text, by their grammar. They are the lines of marks whose remainder is not blank,
and those of the leftmost commands apart from each other whose text is not blank, in the order of their
places; nothing else is a heading. -/
namespace Manuscript.Heading

open Pattern
open Slug.Allocator (FirstFree baseOf)

namespace Command

/-- Commands of a text with their places, from left to right, each behind the one before it. Any
command of the text is one of them or begins inside of one. -/
structure Leftmost (text : List Char) (chosen : List (Nat × Command)) : Prop where
  stands : ∀ x ∈ chosen, x.2.At text x.1
  apart : chosen.Pairwise fun x y => x.1 + x.2.written.length ≤ y.1
  covers : ∀ n c, At text n c → ∃ x ∈ chosen, x.1 ≤ n ∧ n < x.1 + x.2.written.length

variable {text : List Char} {chosen chosen' : List (Nat × Command)} {x y : Nat × Command}

theorem Leftmost.pairwise_lt (h : Leftmost text chosen) :
    chosen.Pairwise fun x y => x.1 < y.1 := by
  refine h.apart.imp fun {x y} hxy => ?_
  have hpos : 0 < x.2.written.length := Nat.succ_pos _
  omega

theorem Leftmost.eq_of_inside (h : Leftmost text chosen) (hx : x ∈ chosen) (hy : y ∈ chosen)
    (hle : y.1 ≤ x.1) (hlt : x.1 < y.1 + y.2.written.length) : x = y := by
  have hapart := List.pairwise_iff_getElem.mp h.apart
  obtain ⟨i, hi, rfl⟩ := List.getElem_of_mem hx
  obtain ⟨j, hj, rfl⟩ := List.getElem_of_mem hy
  rcases Nat.lt_trichotomy i j with hij | rfl | hji
  · have hbehind := hapart i j hi hj hij
    have hpos : 0 < chosen[i].2.written.length := Nat.succ_pos _
    omega
  · rfl
  · have hbehind := hapart j i hj hi hji
    omega

theorem Leftmost.subset (h : Leftmost text chosen) (h' : Leftmost text chosen') :
    chosen ⊆ chosen' := by
  intro x hx
  induction hn : x.1 using Nat.strongRecOn generalizing x chosen chosen' with
  | ind n ih =>
    subst hn
    obtain ⟨y, hy, hle, hlt⟩ := h'.covers x.1 x.2 (h.stands x hx)
    have hxy : x = y := by
      rcases Nat.eq_or_lt_of_le hle with heq | hbefore
      · have hat := h'.stands y hy
        rw [heq] at hat
        exact Prod.ext heq.symm ((h.stands x hx).eq hat)
      -- one that begins earlier and goes on at `x` is chosen on both sides, which leaves no room
      · exact h.eq_of_inside hx (ih y.1 hbefore h' h hy rfl) hle hlt
    exact hxy ▸ hy

theorem Leftmost.unique (h : Leftmost text chosen) (h' : Leftmost text chosen') :
    chosen = chosen' := by
  have hnodup : chosen.Nodup := h.pairwise_lt.imp fun hlt heq => Nat.ne_of_lt hlt (congrArg _ heq)
  have hnodup' : chosen'.Nodup :=
    h'.pairwise_lt.imp fun hlt heq => Nat.ne_of_lt hlt (congrArg _ heq)
  have hperm : chosen.Perm chosen' :=
    (List.perm_ext_iff_of_nodup hnodup hnodup').mpr fun x => ⟨(h.subset h' ·), (h'.subset h ·)⟩
  refine hperm.eq_of_pairwise ?_ h.pairwise_lt h'.pairwise_lt
  intro x y _ _ hxy hyx
  exact absurd hxy (Nat.lt_asymm hyx)

theorem exists_leftmost {hits : List Hit} (h : Finds pattern true 0 text hits) :
    ∃ chosen, Leftmost text chosen ∧
      ∀ p, p ∈ hits.filterMap commandPlace? ↔ ∃ c, (p.start, c) ∈ chosen ∧ p.found = c.found := by
  have hfound := exists_command h
  simp only [Nat.zero_add] at hfound
  choose! n c hat hstart htaken hplace using hfound
  refine ⟨hits.map fun x => (n x, c x), ⟨?_, ?_, ?_⟩, ?_⟩
  · intro y hy
    obtain ⟨x, hx, rfl⟩ := List.mem_map.mp hy
    exact hat x hx
  · rw [List.pairwise_map]
    refine h.apart.imp_of_mem fun {x y} hx hy hxy => ?_
    rwa [Hit.stop, hstart x hx, htaken x hx, hstart y hy] at hxy
  · intro k d hd
    obtain ⟨before, rest, hs, rfl⟩ := hd.stands
    have hway : ⟨d.written, rest, [(1, d.name.text), (2, d.text)]⟩ ∈
        pattern.ways (freshAfter true before) (d.written ++ rest) :=
      mem_ways_pattern.mpr ⟨d, rest, hd.valid, rfl, rfl⟩
    obtain ⟨x, hx, hle, hlt⟩ := h.leftmost takesSome_pattern hs hway
    rw [hstart x hx, Nat.zero_add] at hle
    rw [Hit.stop, hstart x hx, htaken x hx, Nat.zero_add] at hlt
    exact ⟨_, List.mem_map_of_mem hx, hle, hlt⟩
  · intro p
    rw [List.mem_filterMap]
    constructor
    · rintro ⟨x, hx, hp⟩
      obtain rfl := Option.some.inj ((hplace x hx).symm.trans hp)
      exact ⟨c x, List.mem_map_of_mem hx, rfl⟩
    · rintro ⟨d, hd, hfound⟩
      obtain ⟨x, hx, heq⟩ := List.mem_map.mp hd
      obtain ⟨hn, rfl⟩ := Prod.mk.inj heq
      refine ⟨x, hx, ?_⟩
      rw [hplace x hx, hn, ← hfound]

end Command

theorem mem_marks {text : List Char} {hits : List Hit} (h : Finds Mark.pattern true 0 text hits)
    (p : Place) : p ∈ hits.filterMap markPlace? ∧ p.found.isVisible = true ↔
      ∃ m : Mark, m.At text p.start ∧ Text.allBlank m.remainder = false ∧ p.found = m.found := by
  rw [List.mem_filterMap]
  constructor
  · rintro ⟨⟨x, hx, hp⟩, hvisible⟩
    obtain ⟨n, m, hat, -, -, hplace⟩ := exists_mark h x hx
    obtain rfl := Option.some.inj (hplace.symm.trans hp)
    rw [Mark.found, isVisible_trim, Bool.not_eq_true'] at hvisible
    rw [Nat.zero_add]
    exact ⟨m, hat, hvisible, rfl⟩
  · rintro ⟨m, hat, hvisible, hfound⟩
    obtain ⟨x, hx, hplace⟩ := exists_hit_of_mark h hat (Text.ne_nil_of_visible hvisible)
    refine ⟨⟨x, hx, ?_⟩, ?_⟩
    · rw [hplace, Nat.zero_add, ← hfound]
    · rw [hfound, Mark.found, isVisible_trim, hvisible]
      rfl

theorem mem_commands {p : Place} {hits : List Hit} {chosen : List (Nat × Command)}
    (h : ∀ p, p ∈ hits.filterMap commandPlace? ↔ ∃ c, (p.start, c) ∈ chosen ∧ p.found = c.found) :
    p ∈ hits.filterMap commandPlace? ∧ p.found.isVisible = true ↔
      ∃ c : Command, (p.start, c) ∈ chosen ∧ Text.allBlank c.text = false ∧ p.found = c.found := by
  rw [h]
  constructor
  · rintro ⟨⟨c, hc, hfound⟩, hvisible⟩
    rw [hfound, Command.found, isVisible_trim, Bool.not_eq_true'] at hvisible
    exact ⟨c, hc, hvisible, hfound⟩
  · rintro ⟨c, hc, hvisible, hfound⟩
    refine ⟨⟨c, hc, hfound⟩, ?_⟩
    rw [hfound, Command.found, isVisible_trim, hvisible]
    rfl

/-- Exactly the headings of the grammar are found, in the order of their places. -/
theorem extract_exactly {search : Pattern → List Char → List Hit} (hsearch : IsSearch search)
    (file text : String) :
    let headings := extract file text
    (searchWith search file text .empty).1 = headings ∧
    ∃ (chosen : List (Nat × Command)) (places : List Place),
      (Command.Leftmost text.toList chosen ∧
        ∀ chosen', Command.Leftmost text.toList chosen' → chosen' = chosen) ∧
      places.Pairwise (fun p p' => p.start < p'.start) ∧
      (∀ p, p ∈ places ↔
        (∃ m : Mark, m.At text.toList p.start ∧ Text.allBlank m.remainder = false ∧
          p.found = ⟨UInt32.ofNat m.hashes, Text.trim m.remainder⟩) ∨
        ∃ c : Command, (p.start, c) ∈ chosen ∧ Text.allBlank c.text = false ∧
          p.found = ⟨c.name.level, Text.trim c.text⟩) ∧
      headings.map (fun h => (h.level, h.text, h.file)) =
        places.map (fun p => (p.found.level, String.ofList p.found.text, file)) ∧
      ∀ before h after, headings = before ++ h :: after →
        FirstFree (before.map Heading.slug) (baseOf (Slug.slugify h.text)) h.slug := by
  intro headings
  have hmarks := hsearch _ Mark.takesSome_pattern text.toList
  have hcommands := hsearch _ Command.takesSome_pattern text.toList
  obtain ⟨places, hmerges⟩ := exists_merges hmarks hcommands
  obtain ⟨chosen, hleftmost, hchosen⟩ := Command.exists_leftmost hcommands
  refine ⟨congrArg Prod.fst (searchWith_eq hsearch file text .empty), chosen,
    places.filter fun p => p.found.isVisible, ⟨hleftmost, fun _ h => h.unique hleftmost⟩,
    hmerges.sorted.filter _, ?_, ?_, ?_⟩
  · intro p
    rw [List.mem_filter, hmerges.perm.mem_iff, List.mem_append, or_and_right, mem_marks hmarks,
      mem_commands hchosen]
    rfl
  · have hfound : (places.filter fun p => p.found.isVisible).map Place.found =
        found text.toList := by
      rw [← hmerges.found, List.filter_map]
      rfl
    refine (contents_withSlugs file .empty (found text.toList)).trans ?_
    rw [← hfound, List.map_map]
    rfl
  · intro before h after hsplit
    refine (firstFree_of_withSlugs hsplit).congr fun slug => ?_
    simp [Slug.Allocator.empty]

theorem extract_exactly_nested :
    let text := "#### A\n#\xA0A\n# \xA0\n" ++
      "## \\section\x7b\\section\x7bA\x7d\\section*\x7b \x7d\r\n" ++
      "\\section\x7bA\n\x7d\\subsubsection*\x7b ∑\x7d\n#\t∑"
    let before : List Heading := [⟨2, "\\section\x7b\\section\x7bA\x7d\\section*\x7b \x7d",
      "section-section-a-section", "f"⟩, ⟨1, "\\section\x7bA", "section-a", "f"⟩,
      ⟨3, "∑", "section", "f"⟩]
    extract "f" text = before ++ [⟨1, "∑", "section-1", "f"⟩] ∧
      (searchWith backtrack "f" text .empty).1 = extract "f" text ∧
      FirstFree (before.map Heading.slug) "section" "section-1" := by
  intro text before
  have hheadings : extract "f" text = before ++ [⟨1, "∑", "section-1", "f"⟩] := by decide +kernel
  have hbase : baseOf (Slug.slugify "∑") = "section" := by decide +kernel
  obtain ⟨hsearch, chosen, places, -, -, -, -, hslugs⟩ :=
    extract_exactly isSearch_backtrack "f" text
  have hlast := hslugs before _ [] hheadings
  rw [hbase] at hlast
  exact ⟨hheadings, hsearch, hlast⟩

end Manuscript.Heading
