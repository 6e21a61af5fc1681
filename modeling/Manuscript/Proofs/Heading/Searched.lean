import Mathlib.Data.List.Nodup
import Manuscript.Proofs.Heading.Command
import Manuscript.Proofs.Heading.Mark
import Manuscript.Proofs.Heading.Slugged

/-! Headings searched for in two passes over a whole text, one for lines of marks and one for commands.
What both find is put in the order of its places, and what has no text is left out. Main statement: this
gives the headings found line by line, so the headings of a text are those before a line break and then
those behind it. -/
namespace Manuscript.Heading

open Pattern

structure Place where
  start : Nat
  found : Found
  deriving DecidableEq, Repr

/-- The place of a match; the first group tells the level, the second is the text. -/
def place? (level : List Char → UInt32) (x : Hit) : Option Place :=
  match x.group? 1, x.group? 2 with
  | some name, some text => some ⟨x.start, level name, Text.trim text⟩
  | _, _ => none

def markPlace? : Hit → Option Place := place? fun hashes => UInt32.ofNat hashes.length

def commandPlace? : Hit → Option Place :=
  place? fun name => (Level.parse? (String.ofList name)).getD 1

def Found.isVisible (f : Found) : Bool := !f.text.isEmpty

def searched (search : Pattern → List Char → List Hit) (text : List Char) : List Place :=
  let marks := (search Mark.pattern text).filterMap markPlace?
  let commands := (search Command.pattern text).filterMap commandPlace?
  ((marks ++ commands).mergeSort fun x y => x.start ≤ y.start).filter fun x => x.found.isVisible

def searchWith (search : Pattern → List Char → List Hit) (file text : String)
    (a : Slug.Allocator) : List Heading × Slug.Allocator :=
  withSlugs file a ((searched search text.toList).map Place.found)

variable {fresh : Bool} {i : Nat} {s : List Char} {hits marks cmds : List Hit} {x : Hit} {p : Place}

theorem place?_of_groups {level : List Char → UInt32} {name text : List Char}
    (h : x.groups = [(1, name), (2, text)]) :
    place? level x = some ⟨x.start, level name, Text.trim text⟩ := by
  rw [place?, Hit.group?, Hit.group?, h]
  rfl

theorem start_of_place? {level : List Char → UInt32} (h : place? level x = some p) :
    p.start = x.start := by
  rw [place?] at h
  split at h
  · rw [← Option.some.inj h]
  · cases h

/-! Each pass. -/

theorem exists_mark (h : Finds Mark.pattern true i s hits) : ∀ x ∈ hits, ∃ (n : Nat) (m : Mark),
    m.At s n ∧ x.start = i + n ∧ x.taken = m.written ∧ markPlace? x = some ⟨i + n, m.found⟩ := by
  intro x hx
  obtain ⟨before, rest, hs, hstart, -, hway⟩ := h.matches x hx
  obtain ⟨hfresh, m, t, rest', hm, hrest, htext, hw⟩ := Mark.exists_of_mem_ways hway
  obtain ⟨hwritten, rfl, hgroups⟩ := Way.mk.inj hw
  refine ⟨before.length, m, ⟨hm, before, rest, ?_, rfl, freshAfter_true_iff.mp hfresh, hrest⟩,
    hstart, hwritten, ?_⟩
  · rw [← hwritten]
    exact hs
  · rw [markPlace?, place?_of_groups hgroups, hstart, htext, List.length_replicate]
    rfl

theorem exists_hit_of_mark (h : Finds Mark.pattern true i s hits) {n : Nat} {m : Mark}
    (hm : m.At s n) (hne : m.remainder ≠ []) :
    ∃ x ∈ hits, markPlace? x = some ⟨i + n, m.found⟩ := by
  obtain ⟨before, rest, hs, hn, hstart, hrest⟩ := hm.stands
  have hway := Mark.mem_ways_pattern hm.valid hne hrest
  rw [← freshAfter_true_iff.mpr hstart] at hway
  obtain ⟨x, hx, hle, hlt⟩ := h.leftmost Mark.takesSome_pattern hs hway
  obtain ⟨n', m', hm', hstart', htaken, hplace⟩ := exists_mark h x hx
  rw [Hit.stop, htaken] at hlt
  obtain ⟨rfl, rfl⟩ := hm.eq_of_inside hm' (by omega) (by omega)
  exact ⟨x, hx, hplace⟩

theorem parse?_name (name : Command.Name) :
    Level.parse? (String.ofList name.text) = some name.level := by
  cases name <;> decide +kernel

theorem exists_command (h : Finds Command.pattern fresh i s hits) : ∀ x ∈ hits,
    ∃ (n : Nat) (c : Command), c.At s n ∧ x.start = i + n ∧ x.taken = c.written ∧
      commandPlace? x = some ⟨i + n, c.found⟩ := by
  intro x hx
  obtain ⟨before, rest, hs, hstart, -, hway⟩ := h.matches x hx
  obtain ⟨c, rest', hc, -, hw⟩ := Command.mem_ways_pattern.mp hway
  obtain ⟨hwritten, rfl, hgroups⟩ := Way.mk.inj hw
  refine ⟨before.length, c, ⟨hc, before, rest, ?_, rfl⟩, hstart, hwritten, ?_⟩
  · rw [← hwritten]
    exact hs
  · rw [commandPlace?, place?_of_groups hgroups, hstart, parse?_name]
    rfl

theorem command?_eq_none_of_ways (h : Command.pattern.ways fresh ('\\' :: s) = []) :
    command? s = none := by
  rw [Option.eq_none_iff_forall_ne_some]
  rintro ⟨level, text, rest⟩ hread
  obtain ⟨c, hc, hs, -, -⟩ := Command.command?_eq_some_iff.mp hread
  have hnone : ∀ w, w ∉ Command.pattern.ways fresh ('\\' :: s) :=
    List.eq_nil_iff_forall_not_mem.mp h
  exact hnone _ (Command.mem_ways_pattern.mpr ⟨c, rest, hc, hs, rfl⟩)

theorem found_commands (h : Finds Command.pattern fresh i s hits) :
    (hits.filterMap commandPlace?).map Place.found =
      (commands s).map fun p => ⟨p.1, Text.trim p.2⟩ := by
  induction h with
  | done =>
    rw [commands]
    rfl
  | pass hnone _ ih =>
    rw [Command.commands_of_none fun hc => command?_eq_none_of_ways (hc ▸ hnone), ih]
  | @hit fresh i s w hits hw _ _ ih =>
    obtain ⟨c, rest, hc, rfl, rfl⟩ := Command.mem_ways_pattern.mp (List.mem_of_mem_head? hw)
    have hplace : commandPlace? ⟨i, c.written, [(1, c.name.text), (2, c.text)]⟩ =
        some ⟨i, c.found⟩ := by
      rw [commandPlace?, place?_of_groups rfl, parse?_name]
      rfl
    rw [List.filterMap_cons_some hplace, Command.commands_written hc, List.map_cons, ih]
    rfl

/-! Places in order. -/

theorem start_of_mem {q : Pattern} {level : List Char → UInt32} (h : Finds q fresh i s hits)
    (hp : p ∈ hits.filterMap (place? level)) : i ≤ p.start ∧ p.start < i + s.length := by
  obtain ⟨x, hx, hplace⟩ := List.mem_filterMap.mp hp
  rw [start_of_place? hplace]
  exact ⟨h.start_le x hx, Nat.lt_of_lt_of_le (h.start_lt_stop x hx) (h.stop_le x hx)⟩

theorem pairwise_places {q : Pattern} (level : List Char → UInt32) (h : Finds q fresh i s hits) :
    (hits.filterMap (place? level)).Pairwise fun p p' => p.start < p'.start := by
  rw [List.pairwise_filterMap]
  refine h.apart.imp_of_mem ?_
  intro x y hx _ hxy p hp p' hp'
  rw [start_of_place? hp, start_of_place? hp']
  exact Nat.lt_of_lt_of_le (h.start_lt_stop x hx) hxy

/-- What both passes find in a text, in order, is what is found line by line. -/
structure Merges (s : List Char) (marks cmds : List Hit) (places : List Place) : Prop where
  perm : places.Perm (marks.filterMap markPlace? ++ cmds.filterMap commandPlace?)
  sorted : places.Pairwise fun p p' => p.start < p'.start
  found : (places.map Place.found).filter Found.isVisible = found s

theorem Merges.start_of_mem {places : List Place} (h : Merges s marks cmds places)
    (hm : Finds Mark.pattern true i s marks) (hc : Finds Command.pattern true i s cmds)
    (hp : p ∈ places) : i ≤ p.start ∧ p.start < i + s.length := by
  rcases List.mem_append.mp (h.perm.subset hp) with hp | hp
  · exact Heading.start_of_mem hm hp
  · exact Heading.start_of_mem hc hp

/-! One line. -/

theorem marks_of_line (h : Finds Mark.pattern true i s hits) (hline : '\n' ∉ s) :
    hits = [] ∧ marked? s = none ∨ ∃ (x : Hit) (m : Mark), hits = [x] ∧ m.Valid ∧ s = m.written ∧
      markPlace? x = some ⟨i, m.found⟩ := by
  cases hits with
  | nil =>
    refine .inl ⟨rfl, ?_⟩
    rw [Option.eq_none_iff_forall_ne_some]
    intro f hf
    obtain ⟨m, hm, hvisible, rfl, -⟩ := (Mark.marked?_eq_some_iff hline).mp hf
    obtain ⟨x, hx, -⟩ :=
      exists_hit_of_mark h (Mark.at_written hm) (Text.ne_nil_of_visible hvisible)
    cases hx
  | cons x more =>
    obtain ⟨n, m, hm, hstart, htaken, hplace⟩ := exists_mark h x List.mem_cons_self
    obtain ⟨rfl, rfl⟩ := hm.of_line hline
    refine .inr ⟨x, m, ?_, hm.valid, rfl, hplace⟩
    cases more with
    | nil => rfl
    | cons y more =>
      -- a second match would begin where the first one does
      obtain ⟨n, m', hm', hstart', -⟩ := exists_mark h y (List.mem_cons_of_mem _ List.mem_cons_self)
      obtain ⟨rfl, -⟩ := hm'.of_line hline
      have hbehind := List.rel_of_pairwise_cons h.apart List.mem_cons_self
      have hlt := h.start_lt_stop x List.mem_cons_self
      omega

theorem start_mark_lt (hm : Finds Mark.pattern true i s marks)
    (hc : Finds Command.pattern true i s cmds) (hline : '\n' ∉ s) :
    ∀ p ∈ marks.filterMap markPlace?, ∀ p' ∈ cmds.filterMap commandPlace?, p.start < p'.start := by
  intro p hp p' hp'
  rcases marks_of_line hm hline with ⟨rfl, -⟩ | ⟨x, m, rfl, hvalid, hwritten, hplace⟩
  · cases hp
  · rw [List.filterMap_cons_some hplace, List.filterMap_nil, List.mem_singleton] at hp
    obtain ⟨y, hy, hplace'⟩ := List.mem_filterMap.mp hp'
    obtain ⟨n, c, hcommand, -, -, hfound⟩ := exists_command hc y hy
    obtain rfl := Option.some.inj (hplace'.symm.trans hfound)
    obtain ⟨before, rest, hs, rfl⟩ := hcommand.stands
    rw [hp]
    refine Nat.lt_add_of_pos_right (List.length_pos_iff.mpr ?_)
    rintro rfl
    have hhead := congrArg List.head? (hwritten.symm.trans hs)
    rw [Mark.head?_written hvalid] at hhead
    cases hhead

theorem isVisible_trim (level : UInt32) (text : List Char) :
    (⟨level, Text.trim text⟩ : Found).isVisible = !Text.allBlank text := by
  rw [Found.isVisible, Bool.eq_iff_iff]
  simp [Text.trim_eq_nil_iff]

theorem filter_commands (cs : List (UInt32 × List Char)) :
    (cs.map fun p => (⟨p.1, Text.trim p.2⟩ : Found)).filter Found.isVisible = cs.filterMap fun p =>
      if Text.allBlank p.2 then none else some ⟨p.1, Text.trim p.2⟩ := by
  induction cs with
  | nil => rfl
  | cons p cs ih =>
    rw [List.map_cons, List.filter_cons, isVisible_trim, ih]
    cases hblank : Text.allBlank p.2 <;> simp [hblank]

theorem lines_of_line (hline : '\n' ∉ s) : lines s = [s] := by
  induction s with
  | nil => rfl
  | cons c s ih =>
    obtain ⟨hc, hline⟩ := not_or.mp (List.mem_cons.not.mp hline)
    rw [lines, if_neg (Ne.symm hc), ih hline]

theorem merges_line (hm : Finds Mark.pattern true i s marks)
    (hc : Finds Command.pattern true i s cmds) (hline : '\n' ∉ s) :
    Merges s marks cmds (marks.filterMap markPlace? ++ cmds.filterMap commandPlace?) where
  perm := .refl _
  sorted := List.pairwise_append.mpr
    ⟨pairwise_places _ hm, pairwise_places _ hc, start_mark_lt hm hc hline⟩
  found := by
    have hmarks : ((marks.filterMap markPlace?).map Place.found).filter Found.isVisible =
        (marked? s).toList := by
      rcases marks_of_line hm hline with ⟨rfl, hnone⟩ | ⟨x, m, rfl, hvalid, rfl, hplace⟩
      · rw [hnone]
        rfl
      · rw [List.filterMap_cons_some hplace, Mark.marked?_written hvalid]
        cases hblank : Text.allBlank m.remainder <;> simp [Mark.found, isVisible_trim, hblank]
    rw [List.map_append, List.filter_append, hmarks, found_commands hc, filter_commands,
      Heading.found, lines_of_line hline, List.flatMap_singleton, ofLine]

/-! Line by line. -/

theorem lines_ne_nil (s : List Char) : lines s ≠ [] := by
  cases s with
  | nil => exact List.cons_ne_nil _ _
  | cons c s =>
    rw [lines]
    split
    · exact List.cons_ne_nil _ _
    · split
      · exact List.cons_ne_nil _ _
      · exact List.cons_ne_nil _ _

theorem lines_append (a b : List Char) : lines (a ++ '\n' :: b) = lines a ++ lines b := by
  induction a with
  | nil => rfl
  | cons c a ih =>
    rw [List.cons_append, lines, lines, ih]
    split
    · rfl
    · obtain ⟨line, more, hline⟩ := List.exists_cons_of_ne_nil (lines_ne_nil a)
      rw [hline]
      rfl

theorem found_append (a b : List Char) : found (a ++ '\n' :: b) = found a ++ found b := by
  rw [found, lines_append, List.flatMap_append]
  rfl

theorem Merges.append {a b : List Char} {marks' cmds' : List Hit} {places places' : List Place}
    (h : Merges a marks cmds places) (h' : Merges b marks' cmds' places')
    (hbefore : ∀ p ∈ places, ∀ p' ∈ places', p.start < p'.start) :
    Merges (a ++ '\n' :: b) (marks ++ marks') (cmds ++ cmds') (places ++ places') where
  perm := by
    refine (h.perm.append h'.perm).trans ?_
    rw [List.filterMap_append, List.filterMap_append, List.append_assoc, List.append_assoc]
    exact (List.perm_append_comm_assoc ..).append_left _
  sorted := List.pairwise_append.mpr ⟨h.sorted, h'.sorted, hbefore⟩
  found := by rw [List.map_append, List.filter_append, h.found, h'.found, found_append]

/-- A text is its first line, which no match of either pass leaves, and the text behind it. -/
theorem exists_merges (hm : Finds Mark.pattern true i s marks)
    (hc : Finds Command.pattern true i s cmds) : ∃ places, Merges s marks cmds places := by
  induction hn : s.length using Nat.strongRecOn generalizing i s marks cmds with
  | ind n ih =>
    by_cases hfeed : '\n' ∈ s
    · obtain ⟨a, b, rfl, ha⟩ := List.eq_append_cons_of_mem hfeed
      obtain ⟨marks, marks', rfl, hm, hm'⟩ :=
        hm.split Mark.takesSome_pattern Mark.inline_pattern rfl
      obtain ⟨cmds, cmds', rfl, hc, hc'⟩ :=
        hc.split Command.takesSome_pattern Command.inline_pattern rfl
      have hshorter : b.length < n := by
        rw [← hn, List.length_append, List.length_cons]
        omega
      have hline := merges_line hm hc ha
      obtain ⟨places, hmore⟩ := ih _ hshorter hm' hc' rfl
      refine ⟨_, hline.append hmore fun p hp p' hp' => ?_⟩
      have hbefore := (hline.start_of_mem hm hc hp).2
      have hbehind := (hmore.start_of_mem hm' hc' hp').1
      omega
    · exact ⟨_, merges_line hm hc hfeed⟩

theorem mergeSort_eq {places sorted : List Place} (hperm : sorted.Perm places)
    (hsorted : sorted.Pairwise fun p p' => p.start < p'.start) :
    places.mergeSort (fun p p' => p.start ≤ p'.start) = sorted := by
  have hpairwise : (places.mergeSort fun p p' => p.start ≤ p'.start).Pairwise
      fun p p' => p.start ≤ p'.start := by
    have htrans : ∀ p q r : Place, decide (p.start ≤ q.start) = true →
        decide (q.start ≤ r.start) = true → decide (p.start ≤ r.start) = true := by
      intro p q r hpq hqr
      exact decide_eq_true (Nat.le_trans (of_decide_eq_true hpq) (of_decide_eq_true hqr))
    have htotal : ∀ p q : Place,
        (decide (p.start ≤ q.start) || decide (q.start ≤ p.start)) = true := by
      intro p q
      simpa using Nat.le_total p.start q.start
    exact (List.pairwise_mergeSort htrans htotal places).imp of_decide_eq_true
  have hall : (places.mergeSort fun p p' => p.start ≤ p'.start).Perm sorted :=
    (List.mergeSort_perm ..).trans hperm.symm
  have hnodup : (sorted.map Place.start).Nodup :=
    List.Pairwise.map _ (fun _ _ hlt => Nat.ne_of_lt hlt) hsorted
  refine hall.eq_of_pairwise ?_ hpairwise (hsorted.imp Nat.le_of_lt)
  intro p q hp hq hpq hqp
  exact List.inj_on_of_nodup_map hnodup (hall.subset hp) hq (Nat.le_antisymm hpq hqp)

/-- The two passes find what is found line by line. -/
theorem found_searched {search : Pattern → List Char → List Hit} (hsearch : IsSearch search)
    (text : List Char) : (searched search text).map Place.found = found text := by
  obtain ⟨places, h⟩ := exists_merges (hsearch _ Mark.takesSome_pattern text)
    (hsearch _ Command.takesSome_pattern text)
  rw [searched, mergeSort_eq h.perm h.sorted, ← h.found, List.filter_map]
  rfl

theorem searchWith_eq {search : Pattern → List Char → List Hit} (hsearch : IsSearch search)
    (file text : String) (a : Slug.Allocator) :
    searchWith search file text a = extractWith file text a := by
  rw [searchWith, found_searched hsearch, extractWith]

/-! Line breaks. -/

/-- A line break parts a text. The headings of the first part are found and given their slugs, then
those of the second part with the slugs left, whether a text is read line by line or searched in two
passes. -/
theorem extractWith_line_break {search : Pattern → List Char → List Hit} (hsearch : IsSearch search)
    (file a b : String) (slugs : Slug.Allocator) :
    let first := extractWith file a slugs
    let second := extractWith file b first.2
    extractWith file (a ++ "\n" ++ b) slugs = (first.1 ++ second.1, second.2) ∧
      ∀ text slugs, searchWith search file text slugs = extractWith file text slugs := by
  refine ⟨?_, searchWith_eq hsearch file⟩
  have htext : (a ++ "\n" ++ b).toList = a.toList ++ '\n' :: b.toList := by simp
  rw [extractWith, htext, found_append]
  exact withSlugs_append ..

theorem extractWith_line_break_open_command :
    let a := "## One \\section\x7bA\x7d\t \n\\subsection\x7bOne"
    let b := "\x7d # One\n####\n# \r\n#\t\\section*\x7b\\section\x7bOne\x7d\n### A"
    let first := extractWith "f" a .empty
    let second := extractWith "f" b first.2
    first.1 = [⟨2, "One \\section\x7bA\x7d", "one-section-a", "f"⟩, ⟨1, "A", "a", "f"⟩] ∧
      second.1 = [⟨1, "\\section*\x7b\\section\x7bOne\x7d", "section-section-one", "f"⟩,
        ⟨1, "\\section\x7bOne", "section-one", "f"⟩, ⟨3, "A", "a-1", "f"⟩] ∧
      searchWith backtrack "f" (a ++ "\n" ++ b) .empty = (first.1 ++ second.1, second.2) := by
  intro a b first second
  obtain ⟨hbreak, hsearch⟩ := extractWith_line_break isSearch_backtrack "f" a b .empty
  exact ⟨by decide +kernel, by decide +kernel, (hsearch _ _).trans hbreak⟩

end Manuscript.Heading
