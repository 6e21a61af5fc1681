import Mathlib.Data.List.Forall2
import Mathlib.Data.List.SplitBy
import Manuscript.Proofs.Heading.Repeated
import Manuscript.Proofs.Heading.Slugged

/-! A derived table of contents, run by run. Every run of neighbouring blocks of one section gives the
heading of its first block, then the headings found in its texts. The slugs of the latter are handed
out when the ids of all sections are taken, so that they are distinct and no section's id; any other
slug is there once for each run of its section. -/
namespace Manuscript.Heading

open Slug (Allocator)
open Slug.Allocator (Hands)

def sameSection (b c : Block String) : Bool := b.sectionId == c.sectionId

/-- The runs of neighbouring blocks of one section, as long as can be. -/
def runs (blocks : List (Block String)) : List (List (Block String)) := blocks.splitBy sameSection

def fileRuns (files : List (String × List (Block String))) : List (String × List (Block String)) :=
  files.flatMap fun e => (runs e.2).map (e.1, ·)

/-- The headings of a run of blocks: that of its first block, then those found in its texts. -/
def IsPart (run : String × List (Block String)) (part : List Heading) : Prop :=
  ∃ b rest inText, run.2 = b :: rest ∧ part = ofSection run.1 b :: inText ∧
    inText.map (fun h => (h.level, h.text, h.file)) = run.2.flatMap fun b =>
      (found b.body.toList).map fun f => (f.level, String.ofList f.text, run.1)

variable {slug : String} {current : Option String} {b : Block String} {blocks : List (Block String)}
variable {parts : List (List Heading)}

/-! One run. -/

def inTexts (file : String) (a : Allocator) : List (Block String) → List Heading × Allocator
  | [] => ([], a)
  | b :: blocks =>
    let first := extractWith file b.body a
    let more := inTexts file first.2 blocks
    (first.1 ++ more.1, more.2)

theorem ofBlocks_cons (file : String) (current : Option String) (a : Allocator)
    (b : Block String) (blocks : List (Block String)) :
    ofBlocks file current a (b :: blocks) =
      let first := extractWith file b.body a
      let more := ofBlocks file (some b.sectionId) first.2 blocks
      ((if current = some b.sectionId then [] else [ofSection file b]) ++ first.1 ++ more.1,
        more.2) := rfl

theorem hands_inTexts (file : String) (a : Allocator) (blocks : List (Block String)) :
    Hands a ((inTexts file a blocks).1.map Heading.slug) (inTexts file a blocks).2 := by
  induction blocks generalizing a with
  | nil => exact .refl a
  | cons b blocks ih =>
    have hfirst := Slug.Allocator.hands_withSlugs file a (found b.body.toList)
    rw [inTexts, List.map_append]
    exact hfirst.trans (ih (extractWith file b.body a).2)

theorem contents_inTexts (file : String) (a : Allocator) (blocks : List (Block String)) :
    (inTexts file a blocks).1.map (fun h => (h.level, h.text, h.file)) =
      blocks.flatMap fun b => (found b.body.toList).map fun f =>
        (f.level, String.ofList f.text, file) := by
  induction blocks generalizing a with
  | nil => rfl
  | cons b blocks ih =>
    rw [inTexts, List.map_append, List.flatMap_cons, ih]
    exact congrArg (· ++ _) (contents_withSlugs file a _)

/-- Blocks that go on with the section before them have no headings but those in their texts. -/
theorem ofBlocks_of_same (file id : String) (a : Allocator)
    (hsame : ∀ b ∈ blocks, b.sectionId = id) :
    ofBlocks file (some id) a blocks = inTexts file a blocks := by
  induction blocks generalizing a with
  | nil => rfl
  | cons b blocks ih =>
    obtain ⟨hb, hsame⟩ := List.forall_mem_cons.mp hsame
    rw [ofBlocks_cons, inTexts, hb]
    simp only [ih _ hsame, if_true, List.nil_append]

theorem ofBlocks_run (file : String) (a : Allocator) (hcurrent : current ≠ some b.sectionId)
    (hsame : ∀ c ∈ blocks, c.sectionId = b.sectionId) :
    ofBlocks file current a (b :: blocks) =
      (ofSection file b :: (inTexts file a (b :: blocks)).1,
        (inTexts file a (b :: blocks)).2) := by
  rw [ofBlocks_cons, inTexts]
  simp only [ofBlocks_of_same file b.sectionId _ hsame, if_neg hcurrent, List.cons_append,
    List.nil_append]

theorem ofBlocks_append (file : String) (current : Option String) (a : Allocator)
    (blocks more : List (Block String)) :
    ofBlocks file current a (blocks ++ more) =
      let first := ofBlocks file current a blocks
      let rest := ofBlocks file (lastSection current blocks) first.2 more
      (first.1 ++ rest.1, rest.2) := by
  induction blocks generalizing current a with
  | nil => rfl
  | cons b blocks ih =>
    simp only [List.cons_append, ofBlocks_cons, ih, lastSection_cons, List.append_assoc]

theorem sectionId_of_isChain (h : (b :: blocks).IsChain fun b c => sameSection b c)
    {c : Block String} (hc : c ∈ blocks) : c.sectionId = b.sectionId := by
  induction blocks generalizing b with
  | nil => cases hc
  | cons d blocks ih =>
    obtain ⟨hbd, hrest⟩ := List.isChain_cons_cons.mp h
    have hd : d.sectionId = b.sectionId := (beq_iff_eq.mp hbd).symm
    rcases List.mem_cons.mp hc with rfl | hc
    · exact hd
    · exact (ih hrest hc).trans hd

/-! The runs of a file. -/

theorem exists_parts_of_runs (file : String) {rs : List (List (Block String))} (hne : [] ∉ rs)
    (hsame : ∀ run ∈ rs, run.IsChain fun b c => sameSection b c)
    (hapart : rs.IsChain fun r r' => ∃ hr hr', sameSection (r.getLast hr) (r'.head hr') = false)
    (hcurrent : ∀ b ∈ rs.flatten.head?, current ≠ some b.sectionId) (a : Allocator) :
    ∃ parts, (ofBlocks file current a rs.flatten).1 = parts.flatten ∧
      List.Forall₂ IsPart (rs.map (file, ·)) parts ∧
      Hands a ((parts.flatMap List.tail).map Heading.slug)
        (ofBlocks file current a rs.flatten).2 := by
  induction rs generalizing current a with
  | nil => exact ⟨[], rfl, .nil, .refl a⟩
  | cons run rs ih =>
    obtain ⟨b, blocks, rfl⟩ := List.exists_cons_of_ne_nil
      (fun h : run = [] => hne (h ▸ List.mem_cons_self))
    have hown : ∀ c ∈ blocks, c.sectionId = b.sectionId := fun c hc =>
      sectionId_of_isChain (hsame _ List.mem_cons_self) hc
    have hrun := ofBlocks_run file a (hcurrent b rfl) hown
    have hnext : ∀ c ∈ rs.flatten.head?,
        lastSection current (b :: blocks) ≠ some c.sectionId := by
      cases rs with
      | nil => exact fun c hc => nomatch hc
      | cons next rs =>
        obtain ⟨hlast, hhead, hother⟩ := (List.isChain_cons_cons.mp hapart).1
        obtain ⟨d, more, rfl⟩ := List.exists_cons_of_ne_nil hhead
        intro c hc
        obtain rfl : d = c := Option.some.inj hc
        rw [lastSection, List.getLast?_eq_some_getLast hlast]
        exact fun heq => beq_eq_false_iff_ne.mp hother (Option.some.inj heq)
    obtain ⟨parts, hparts, hall, hgiven⟩ := ih (fun h => hne (List.mem_cons_of_mem _ h))
      (fun r hr => hsame r (List.mem_cons_of_mem _ hr)) hapart.tail hnext
      (inTexts file a (b :: blocks)).2
    have happend := ofBlocks_append file current a (b :: blocks) rs.flatten
    simp only [hrun] at happend
    refine ⟨(ofSection file b :: (inTexts file a (b :: blocks)).1) :: parts, ?_, ?_, ?_⟩
    · rw [List.flatten_cons, happend, List.flatten_cons, ← hparts]
    · exact .cons ⟨b, blocks, _, rfl, rfl, contents_inTexts file a _⟩ hall
    · rw [List.flatten_cons, happend, List.flatMap_cons, List.map_append]
      exact (hands_inTexts file a (b :: blocks)).trans hgiven

/-! The runs of all files. -/

theorem exists_parts (files : List (String × List (Block String))) (a : Allocator) :
    ∃ parts b, ofFiles a files = parts.flatten ∧ List.Forall₂ IsPart (fileRuns files) parts ∧
      Hands a ((parts.flatMap List.tail).map Heading.slug) b := by
  induction files generalizing a with
  | nil => exact ⟨[], a, rfl, .nil, .refl a⟩
  | cons e files ih =>
    have hblocks : (runs e.2).flatten = e.2 := List.flatten_splitBy ..
    have hnone : ∀ b ∈ (runs e.2).flatten.head?, none ≠ some b.sectionId := fun b _ => nofun
    obtain ⟨first, hfirst, hall, hgiven⟩ := exists_parts_of_runs e.1
      (List.nil_notMem_splitBy sameSection e.2) (fun r hr => List.isChain_of_mem_splitBy hr)
      (List.isChain_getLast_head_splitBy sameSection e.2) hnone a
    rw [← runs, hblocks] at hfirst hgiven
    obtain ⟨more, b, hmore, hrest, hlater⟩ := ih (ofBlocks e.1 none a e.2).2
    refine ⟨first ++ more, b, ?_, ?_, ?_⟩
    · rw [List.flatten_append, ← hfirst, ← hmore]
      rfl
    · exact List.rel_append hall hrest
    · rw [List.flatMap_append, List.map_append]
      exact hgiven.trans hlater

def isRunOf (slug : String) (run : String × List (Block String)) : Bool :=
  run.2.head?.any fun b => b.sectionId == slug

theorem count_of_parts {rs : List (String × List (Block String))} (h : List.Forall₂ IsPart rs parts)
    (slug : String) : (parts.flatten.map Heading.slug).count slug =
      rs.countP (isRunOf slug) + ((parts.flatMap List.tail).map Heading.slug).count slug := by
  induction h with
  | nil => rfl
  | @cons run part rs parts hpart _ ih =>
    obtain ⟨b, rest, inText, hrun, rfl, -⟩ := hpart
    have hown : isRunOf slug run = (b.sectionId == slug) := by
      rw [isRunOf, hrun]
      rfl
    rw [List.countP_cons, hown, List.flatten_cons, List.map_append, List.count_append, ih,
      List.flatMap_cons, List.map_append, List.count_append, List.map_cons, List.count_cons,
      List.tail_cons]
    by_cases hslug : b.sectionId = slug
    · simp only [ofSection, hslug, beq_self_eq_true, if_true]
      omega
    · simp only [ofSection, beq_eq_false_iff_ne.mpr hslug, Bool.false_eq_true, if_false]
      omega

def sectionIds (content : Content) : List String :=
  (content.entries.flatMap Prod.snd).map Block.sectionId

theorem countP_fileRuns {content : Content} (hslug : slug ∉ sectionIds content) :
    (fileRuns content.entries).countP (isRunOf slug) = 0 := by
  rw [List.countP_eq_zero]
  intro run hrun hown
  obtain ⟨e, he, hrun⟩ := List.mem_flatMap.mp hrun
  obtain ⟨r, hr, rfl⟩ := List.mem_map.mp hrun
  obtain ⟨b, hb, hid⟩ := (Option.any_eq_true _ _).mp hown
  have hmem : b ∈ (runs e.2).flatten := List.mem_flatten.mpr ⟨r, hr, List.mem_of_mem_head? hb⟩
  rw [runs, List.flatten_splitBy] at hmem
  apply hslug
  rw [← beq_iff_eq.mp hid]
  exact List.mem_map_of_mem (List.mem_flatMap.mpr ⟨e, he, hmem⟩)

/-- A derived table of contents has one part for each run, file by file in the order of the files. A
part is a heading under the section's id, with the title and the level of the first block, and behind
it the headings found in the texts of the run. The id of a section is the slug of as many headings as
there are runs of it; no other slug is there twice, as the headings found in texts have slugs that
differ from each other and from the ids of all sections. -/
theorem derive_by_runs (content : Content) :
    ∃ parts : List (List Heading), derive content = parts.flatten ∧
      List.Forall₂ IsPart (fileRuns content.entries) parts ∧
      (∀ slug ∈ sectionIds content, ((derive content).map Heading.slug).count slug =
        (fileRuns content.entries).countP (isRunOf slug)) ∧
      (∀ slug, slug ∉ sectionIds content → ((derive content).map Heading.slug).count slug ≤ 1) ∧
      (∀ h ∈ parts.flatMap List.tail, h.slug ∉ sectionIds content) ∧
      ((parts.flatMap List.tail).map Heading.slug).Nodup := by
  obtain ⟨parts, b, hparts, hall, hgiven⟩ := exists_parts content.entries (reserveAll content)
  have hderive : derive content = parts.flatten := hparts
  have hused : (reserveAll content).used = (sectionIds content).reverse := used_reserveAll content
  have hfree : ∀ h ∈ parts.flatMap List.tail, h.slug ∉ sectionIds content := by
    intro h hh hsection
    apply hgiven.free h.slug (List.mem_map_of_mem hh)
    rw [hused]
    exact List.mem_reverse.mpr hsection
  have hcount := count_of_parts hall
  rw [← hderive] at hcount
  refine ⟨parts, hderive, hall, ?_, ?_, hfree, hgiven.nodup⟩
  · intro slug hslug
    have hnone : slug ∉ (parts.flatMap List.tail).map Heading.slug := by
      intro hmem
      obtain ⟨h, hh, rfl⟩ := List.mem_map.mp hmem
      exact hfree h hh hslug
    exact (hcount slug).trans (by rw [List.count_eq_zero_of_not_mem hnone, Nat.add_zero])
  · intro slug hslug
    have honce := List.nodup_iff_count_le_one.mp hgiven.nodup slug
    have hall := hcount slug
    rw [countP_fileRuns hslug] at hall
    omega

theorem derive_by_runs_interrupted :
    let content : Content := .ofList
      [("f", [⟨"a", "A", "h2", "# B"⟩, ⟨"a", "A again", "h1", ""⟩, ⟨"b", "B", "", "# A"⟩,
          ⟨"a", "Back", "h1", "# A"⟩]),
        ("g", [⟨"c", "C", "h1", "# C\n\\section{New}"⟩])]
    derive content = [⟨2, "A", "a", "f"⟩, ⟨1, "B", "b-1", "f"⟩, ⟨1, "B", "b", "f"⟩,
        ⟨1, "A", "a-1", "f"⟩, ⟨1, "Back", "a", "f"⟩, ⟨1, "A", "a-2", "f"⟩, ⟨1, "C", "c", "g"⟩,
        ⟨1, "C", "c-1", "g"⟩, ⟨1, "New", "new", "g"⟩] ∧
      "a" ∈ sectionIds content ∧ ((derive content).map Heading.slug).count "a" = 2 ∧
      "new" ∉ sectionIds content ∧ ((derive content).map Heading.slug).count "new" ≤ 1 ∧
      ∃ parts : List (List Heading), derive content = parts.flatten ∧
        ∀ h ∈ parts.flatMap List.tail, h.slug ∉ sectionIds content := by
  intro content
  obtain ⟨parts, hparts, -, htwice, honce, hfree, -⟩ := derive_by_runs content
  have ha : "a" ∈ sectionIds content := by decide
  have hnew : "new" ∉ sectionIds content := by decide
  exact ⟨by decide +kernel, ha, (htwice "a" ha).trans (by decide), hnew, honce "new" hnew,
    parts, hparts, hfree⟩

end Manuscript.Heading
