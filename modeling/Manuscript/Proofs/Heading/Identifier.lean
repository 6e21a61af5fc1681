import Manuscript.Proofs.Heading.Runs
import Manuscript.Proofs.Heading.Slug
import Manuscript.Proofs.Markup.Limit

/-! Headings whose slugs an allocator gives. Such a slug is made of dashes, digits and lower-case letters,
whatever stands in the heading, so it is an identifier: a reference to it is read as one, unless it is too
long to be an argument, and the heading is found by it. -/
namespace Manuscript

namespace Slug

variable {c : Char} {base slug : String} {taken : List String}

theorem IsWritten.isIdentifierChar (h : IsWritten c) : Markup.isIdentifierChar c = true := by
  have hdelimiter : Markup.isDelimiter c = false := by
    rcases h with rfl | h
    · decide
    · have hne : ∀ d : Char, (d.toNat < 48 ∨ 57 < d.toNat) ∧ (d.toNat < 97 ∨ 122 < d.toNat) →
          c ≠ d := by
        rintro d hd rfl
        omega
      simp only [Markup.isDelimiter, Bool.or_eq_false_iff, beq_eq_false_iff_ne]
      refine ⟨⟨⟨⟨⟨⟨⟨⟨?_, ?_⟩, ?_⟩, ?_⟩, ?_⟩, ?_⟩, ?_⟩, ?_⟩, ?_⟩ <;> exact hne _ (by decide)
  simp [Markup.isIdentifierChar, h.not_isBlank, hdelimiter]

structure WrittenOut (s : String) : Prop where
  ne : s ≠ ""
  written : ∀ c ∈ s.toList, IsWritten c

theorem WrittenOut.isIdentifier (h : WrittenOut slug) :
    Markup.isIdentifier slug.toList = true := by
  rw [Markup.isIdentifier, Bool.and_eq_true, List.all_eq_true]
  refine ⟨?_, fun c hc => (h.written c hc).isIdentifierChar⟩
  rw [Bool.not_eq_true', List.isEmpty_eq_false_iff]
  exact fun hnil => h.ne (String.toList_eq_nil_iff.mp hnil)

namespace Allocator

theorem writtenOut_baseOf (text : String) : WrittenOut (baseOf (slugify text)) := by
  rw [baseOf]
  split
  · refine ⟨by decide, fun c hc => .inr (.inr ?_)⟩
    have hletters : "section".toList.all fun d => 97 ≤ d.toNat && d.toNat ≤ 122 := by decide
    simpa using List.all_eq_true.mp hletters c hc
  · next hne =>
    refine ⟨fun hnil => hne (by rw [hnil]; rfl), fun c hc => ?_⟩
    rw [slugify, String.toList_ofList] at hc
    exact isWritten_of_mem hc

theorem writtenOut_suffixed (h : WrittenOut base) (n : Nat) : WrittenOut (suffixed base n) := by
  refine ⟨?_, ?_⟩
  · intro hnil
    have := congrArg String.toList hnil
    simp [suffixed] at this
  · intro c hc
    simp only [suffixed, String.toList_append, Text.decimal, String.toList_ofList,
      List.mem_append] at hc
    rcases hc with (hc | hc) | hc
    · exact h.written c hc
    · exact .inl (List.mem_singleton.mp hc)
    · have hdigit := List.all_eq_true.mp (Text.all_isDigit_digits n) c hc
      rw [Text.isDigit, Bool.and_eq_true, decide_eq_true_eq, decide_eq_true_eq] at hdigit
      exact .inr (.inl hdigit)

theorem FirstFree.writtenOut (h : FirstFree taken base slug) (hbase : WrittenOut base) :
    WrittenOut slug := by
  rcases h.2 with rfl | ⟨-, n, -, rfl, -⟩
  · exact hbase
  · exact writtenOut_suffixed hbase n

end Allocator
end Slug

namespace Heading

open Slug (Allocator WrittenOut)

variable {file : String} {a : Allocator} {h : Heading}

theorem writtenOut_of_withSlugs {fs : List Found} (hh : h ∈ (withSlugs file a fs).1) :
    WrittenOut h.slug := by
  obtain ⟨before, after, hsplit⟩ := List.append_of_mem hh
  exact (firstFree_of_withSlugs hsplit).writtenOut (Slug.Allocator.writtenOut_baseOf h.text)

theorem writtenOut_of_inTexts {blocks : List (Block String)}
    (hh : h ∈ (inTexts file a blocks).1) : WrittenOut h.slug := by
  induction blocks generalizing a with
  | nil => cases hh
  | cons b blocks ih =>
    rcases List.mem_append.mp hh with hh | hh
    · exact writtenOut_of_withSlugs hh
    · exact ih hh

def inFiles (a : Allocator) : List (String × List (Block String)) → List Heading
  | [] => []
  | e :: files =>
    let first := inTexts e.1 a e.2
    first.1 ++ inFiles first.2 files

theorem writtenOut_of_inFiles {files : List (String × List (Block String))}
    (hh : h ∈ inFiles a files) : WrittenOut h.slug := by
  induction files generalizing a with
  | nil => cases hh
  | cons e files ih =>
    rcases List.mem_append.mp hh with hh | hh
    · exact writtenOut_of_inTexts hh
    · exact ih hh

/-! A derived table of contents, by where the slugs come from. -/

theorem allocator_ofBlocks (file : String) (current : Option String) (a : Allocator)
    (blocks : List (Block String)) :
    (ofBlocks file current a blocks).2 = (inTexts file a blocks).2 := by
  induction blocks generalizing current a with
  | nil => rfl
  | cons b blocks ih => exact ih _ _

theorem perm_ofBlocks (file : String) (current : Option String) (a : Allocator)
    (blocks : List (Block String)) : (ofBlocks file current a blocks).1.Perm
      (ofRuns file current blocks ++ (inTexts file a blocks).1) := by
  induction blocks generalizing current a with
  | nil => exact .refl _
  | cons b blocks ih =>
    rw [ofBlocks_cons, ofRuns, inTexts]
    simp only [List.append_assoc]
    refine List.Perm.append_left _ ?_
    refine ((ih _ _).append_left _).trans ?_
    exact List.perm_append_comm_assoc ..

theorem perm_ofFiles (a : Allocator) (files : List (String × List (Block String))) :
    (ofFiles a files).Perm ((files.flatMap fun e => ofRuns e.1 none e.2) ++ inFiles a files) := by
  induction files generalizing a with
  | nil => exact .refl _
  | cons e files ih =>
    rw [List.flatMap_cons, List.append_assoc, inFiles]
    have hrest := ih (inTexts e.1 a e.2).2
    rw [← allocator_ofBlocks e.1 none] at hrest
    refine ((perm_ofBlocks e.1 none a e.2).append hrest).trans ?_
    rw [List.append_assoc, allocator_ofBlocks]
    refine List.Perm.append_left _ ?_
    exact List.perm_append_comm_assoc ..

def ofSections (content : Content) : List Heading :=
  content.entries.flatMap fun e => ofRuns e.1 none e.2

def allocated (content : Content) : List Heading :=
  inFiles (reserveAll content) content.entries

theorem perm_derive (content : Content) :
    (derive content).Perm (ofSections content ++ allocated content) :=
  perm_ofFiles _ _

/-- A derived table of contents holds the headings of sections and those whose slugs come from the
allocator. In every spelling a reference to one of the latter is read as a reference to its slug, exactly
if the slug has at most 255 bytes, and it is resolved to that slug. -/
theorem allocated_referable (content : Content) (sources : List Source) :
    let headings := derive content
    headings.Perm (ofSections content ++ allocated content) ∧
      ∀ h ∈ allocated content, ∀ m ∈ Markup.Head.referring,
        (h.slug.utf8ByteSize ≤ 255 ↔
          Markup.parse (m.write h.slug) = [.reference h.slug (m.write h.slug)]) ∧
        (Indices.build headings sources).resolve (.reference h.slug (m.write h.slug)) =
          .reference h.slug h.slug := by
  intro headings
  have hperm : headings.Perm (ofSections content ++ allocated content) := perm_derive content
  refine ⟨hperm, fun h hh m hm => ⟨?_, ?_⟩⟩
  · have hid : Markup.isIdentifier h.slug.toList = true := (writtenOut_of_inFiles hh).isIdentifier
    obtain ⟨hvalid, hbegin, hrole⟩ := Markup.valid_referring m hm
    have htokens : m.tokens h.slug.toList = [.reference h.slug (m.write h.slug)] := by
      rw [Markup.Head.tokens, hrole, Markup.Role.tokens_referring hid, String.ofList_toList]
      rfl
    rw [Markup.parse_write_iff hvalid hbegin hid htokens, Markup.argumentLimit]
    exact Nat.lt_succ_iff.symm
  · have hmem : h ∈ headings := hperm.symm.subset (List.mem_append_right _ hh)
    exact Indices.resolve_reference_of_mem (List.mem_map_of_mem hmem) _

theorem allocated_referable_unnamed :
    let content : Content := .ofList
      [("f", [⟨"section", "S", "h1", "# ∑\n\\section\x7b∏\x7d"⟩, ⟨"t", "T", "h1", "## 章"⟩])]
    let h : Heading := ⟨2, "章", "section-3", "f"⟩
    let m : Markup.Head := .bracket "ref".toList
    h ∈ allocated content ∧ m ∈ Markup.Head.referring ∧ h.slug.utf8ByteSize ≤ 255 ∧
      Markup.parse "[ref:section-3]" = [.reference "section-3" "[ref:section-3]"] ∧
      (Indices.build (derive content) []).resolve (.reference "section-3" "[ref:section-3]") =
        .reference "section-3" "section-3" := by
  intro content h m
  have hh : h ∈ allocated content := by decide +kernel
  have hm : m ∈ Markup.Head.referring := by decide
  have hshort : h.slug.utf8ByteSize ≤ 255 := by decide
  have hwritten : m.write h.slug = "[ref:section-3]" := by decide
  obtain ⟨hread, hresolved⟩ := (allocated_referable content []).2 h hh m hm
  rw [hwritten] at hread hresolved
  exact ⟨hh, hm, hshort, hread.mp hshort, hresolved⟩

end Heading
end Manuscript
