import Mathlib.Data.List.Infix
import Manuscript.Proofs.Bibliography.Searched
import Manuscript.Proofs.Markup.Argument
import Manuscript.Proofs.Text.Blank

/-! Bibliography entries written out one after the other. Main statement: reading gives them back in their
order, with keys given twice, whatever stands before the first entry and behind the end of the
bibliography. -/
namespace Manuscript.Bibliography

/-- Neither an entry nor the end of the bibliography begins in the text. -/
structure Plain (s : List Char) : Prop where
  item : ¬ "\\bibitem".toList <:+: s
  ending : ¬ environmentEnd <:+: s

instance (s : List Char) : Decidable (Plain s) :=
  decidable_of_iff (¬ "\\bibitem".toList <:+: s ∧ ¬ environmentEnd <:+: s)
    ⟨fun h => ⟨h.1, h.2⟩, fun h => ⟨h.item, h.ending⟩⟩

structure Bibitem where
  label : Option String
  key : String
  text : String
  deriving DecidableEq, Repr, Inhabited

namespace Bibitem

def source (e : Bibitem) : Source := ⟨e.key, e.text⟩

def write (e : Bibitem) : String :=
  "\\bibitem" ++ (e.label.elim "" fun l => "[" ++ l ++ "]") ++ "\x7b" ++ e.key ++ "\x7d " ++ e.text ++
    "\n"

structure Valid (e : Bibitem) : Prop where
  label : ∀ l ∈ e.label, ∀ c ∈ l.toList, c ≠ ']' ∧ c ≠ '\n' ∧ c ≠ '\\'
  key : Markup.isIdentifier e.key.toList = true
  trimmed : Text.strip e.text = e.text
  plain : Plain e.text.toList

theorem label_all_iff {label : Option String} :
    (label.all fun l => l.toList.all fun c => c != ']' && c != '\n' && c != '\\') = true ↔
      ∀ l ∈ label, ∀ c ∈ l.toList, c ≠ ']' ∧ c ≠ '\n' ∧ c ≠ '\\' := by
  cases label <;> simp [and_assoc]

instance (e : Bibitem) : Decidable e.Valid :=
  decidable_of_iff ((e.label.all fun l => l.toList.all fun c => c != ']' && c != '\n' && c != '\\') ∧
      Markup.isIdentifier e.key.toList = true ∧ Text.strip e.text = e.text ∧ Plain e.text.toList)
    ⟨fun h => ⟨label_all_iff.mp h.1, h.2.1, h.2.2.1, h.2.2.2⟩,
      fun h => ⟨label_all_iff.mpr h.label, h.key, h.trimmed, h.plain⟩⟩

def opening (e : Bibitem) : Opening := ⟨e.label.map String.toList, e.key.toList⟩

def behind (e : Bibitem) : List Char := ' ' :: (e.text.toList ++ ['\n'])

variable {e : Bibitem} {s : List Char}

theorem toList_label (label : Option String) :
    (label.elim "" fun l => "[" ++ l ++ "]").toList =
      Opening.bracketed (label.map String.toList) := by
  cases label with
  | none => rfl
  | some l =>
    change ("[" ++ l ++ "]").toList = _
    rw [String.toList_append, String.toList_append]
    rfl

theorem toList_write (e : Bibitem) : e.write.toList = e.opening.written ++ e.behind := by
  have hword : "\\bibitem".toList = '\\' :: Opening.word := rfl
  have hopen : "\x7b".toList = ['{'] := rfl
  have hclose : "\x7d ".toList = ['}', ' '] := rfl
  have hline : "\n".toList = ['\n'] := rfl
  simp only [write, String.toList_append, toList_label, Opening.written, opening, behind, hword,
    hopen, hclose, hline, List.append_assoc, List.cons_append, List.nil_append]

theorem Valid.opening (h : e.Valid) : e.opening.Valid where
  label := by
    intro l hl c hc
    obtain ⟨label, hlabel, rfl⟩ := Option.map_eq_some_iff.mp hl
    obtain ⟨hbracket, hline, -⟩ := h.label label hlabel c hc
    simp [Opening.isLabel, hbracket, hline]
  key := by
    intro c hc
    have hchar := Markup.isIdentifierChar_of_mem h.key hc
    have hbrace : c ≠ '}' := Markup.ne_of_isIdentifierChar hchar (by decide)
    have hline : c ≠ '\n' := Markup.ne_of_isIdentifierChar hchar (by decide)
    simp [Opening.isKey, hbrace, hline]

theorem Valid.exists_opening (h : e.Valid) :
    ∃ rest, e.opening.written = '\\' :: ("bibitem".toList ++ rest) ∧ '\\' ∉ rest := by
  refine ⟨Opening.bracketed (e.label.map String.toList) ++ '{' :: (e.key.toList ++ ['}']), rfl, ?_⟩
  have hkey : '\\' ∉ e.key.toList := fun hmem =>
    Markup.ne_of_isIdentifierChar (Markup.isIdentifierChar_of_mem h.key hmem) (by decide) rfl
  have hlabel : '\\' ∉ Opening.bracketed (e.label.map String.toList) := by
    cases hl : e.label with
    | none => exact List.not_mem_nil
    | some l =>
      have hbare : '\\' ∉ l.toList := fun hmem => (h.label l hl _ hmem).2.2 rfl
      simp [Opening.bracketed, hbare]
  simp [hkey, hlabel]

theorem infix_text {p : List Char} (hline : '\n' ∉ p) (h : ('\\' :: p) <:+: e.behind) :
    ('\\' :: p) <:+: e.text.toList := by
  have hspace : '\\' ∉ [' '] := by decide
  refine Text.infix_of_tail_notMem ?_ (Text.infix_of_head_notMem hspace h)
  intro c hc
  rw [List.mem_singleton.mp hc, List.mem_cons, not_or]
  exact ⟨by decide, hline⟩

theorem Valid.plain_behind (h : e.Valid) : Plain e.behind where
  item := fun hitem => h.plain.item (infix_text (by decide) hitem)
  ending := fun hending => h.plain.ending (infix_text (by decide) hending)

theorem Valid.not_ending (h : e.Valid) : ¬ environmentEnd <:+: e.write.toList := by
  intro hending
  obtain ⟨rest, hwritten, hrest⟩ := h.exists_opening
  have hword : '\\' ∉ "bibitem".toList := by decide
  rw [toList_write, hwritten, List.cons_append, List.append_assoc] at hending
  rcases List.infix_cons_iff.mp hending with hstart | hlater
  · -- the two words differ in their first letters
    obtain ⟨t, ht⟩ := hstart
    cases ht
  · have hbehind := Text.infix_of_head_notMem hrest (Text.infix_of_head_notMem hword hlater)
    exact h.plain_behind.ending hbehind

end Bibitem

open Pattern (IsSearch Hit backtrack isSearch_backtrack)

variable {s t : List Char} {entries : List Bibitem}

theorem environmentEnd_eq : environmentEnd = "\\end\x7bthebibliography\x7d".toList := rfl

theorem cut_ending (h : ¬ environmentEnd <:+: s) (t : List Char) :
    Text.cut environmentEnd (s ++ (environmentEnd ++ t)) = some (s, t) := by
  have hword : environmentEnd = '\\' :: "end\x7bthebibliography\x7d".toList := by decide
  rw [hword] at h ⊢
  exact Text.cut_append_of_not_infix (by decide) h

def written (entries : List Bibitem) : List Char := entries.flatMap fun e => e.write.toList

theorem toList_append_join (preamble : String) (entries : List Bibitem) :
    (preamble ++ String.join (entries.map Bibitem.write)).toList =
      preamble.toList ++ written entries := by
  rw [String.toList_append, String.toList_join, List.flatMap_map, written]

theorem head?_written (entries : List Bibitem) : ∀ c ∈ (written entries).head?, c = '\\' := by
  cases entries with
  | nil => exact fun c hc => nomatch hc
  | cons e entries =>
    intro c hc
    rw [written, List.flatMap_cons, Bibitem.toList_write] at hc
    exact (Option.some.inj hc).symm

theorem not_ending_written (h : ∀ e ∈ entries, e.Valid) : ¬ environmentEnd <:+: written entries := by
  induction entries with
  | nil => decide
  | cons e entries ih =>
    obtain ⟨he, hentries⟩ := List.forall_mem_cons.mp h
    rw [written, List.flatMap_cons]
    intro hending
    rcases Text.infix_append_of_head (by decide) (head?_written entries) hending with hfirst | hmore
    · exact he.not_ending hfirst
    · exact ih hentries hmore

theorem items_append (ht : Plain t) (hs : ∀ c ∈ s.head?, c = '\\') :
    items (t ++ s) = (t ++ (items s).1, (items s).2) := by
  have hitem := ht.item
  clear ht
  induction t with
  | nil => rfl
  | cons c t ih =>
    have hnone : c = '\\' → item? (t ++ s) = none := by
      rintro rfl
      rw [Option.eq_none_iff_forall_ne_some]
      rintro ⟨key, rest⟩ hread
      obtain ⟨o, -, hopen, -⟩ := Opening.item?_eq_some_iff.mp hread
      rw [Opening.written_append, ← List.cons_append] at hopen
      have hword : ('\\' :: Opening.word) <+: ('\\' :: t) ++ s :=
        ⟨_, hopen.symm⟩
      have hstart := Text.prefix_of_prefix_append (by decide) hs (List.cons_ne_nil _ _) hword
      exact hitem hstart.isInfix
    have hrest := ih fun hlater => hitem (hlater.trans (List.suffix_cons c t).isInfix)
    rw [List.cons_append, Opening.items_of_none hnone, hrest]
    rfl

theorem items_entries (h : ∀ e ∈ entries, e.Valid) :
    items (written entries) = ([], entries.map fun e => (e.key.toList, e.behind)) := by
  induction entries with
  | nil =>
    rw [written, List.flatMap_nil, items]
    rfl
  | cons e entries ih =>
    obtain ⟨he, hentries⟩ := List.forall_mem_cons.mp h
    have hmore := items_append he.plain_behind (head?_written entries)
    rw [ih hentries, List.append_nil] at hmore
    have hwritten : written (e :: entries) = e.opening.written ++ (e.behind ++ written entries) := by
      rw [written, List.flatMap_cons, Bibitem.toList_write, List.append_assoc, ← written]
    rw [hwritten, Opening.items_written he.opening, hmore]
    rfl

theorem source?_behind {e : Bibitem} (h : e.Valid) :
    source? (e.key.toList, e.behind) = some e.source := by
  have hkey : Text.trim e.key.toList = e.key.toList := Markup.trim_eq_self_of_isIdentifier h.key
  have hvisible : Text.allBlank e.key.toList = false := by
    rw [Bool.eq_false_iff]
    intro hblank
    rw [← Text.trim_eq_nil_iff, hkey] at hblank
    exact (Markup.isIdentifier_iff.mp h.key).1 hblank
  have htext : String.ofList (Text.trim e.behind) = e.text := by
    have hspace : Text.allBlank [' '] = true := by decide
    have hline : Text.allBlank ['\n'] = true := by decide
    have hbehind : Text.trim e.behind = Text.trim e.text.toList :=
      (Text.trim_blank_append hspace _).trans (Text.trim_append_blank _ hline)
    rw [hbehind]
    exact h.trimmed
  simp only [source?, hvisible, hkey, htext, String.ofList_toList]
  rfl

theorem filterMap_items {preamble : List Char} (hpre : Plain preamble)
    (h : ∀ e ∈ entries, e.Valid) :
    (items (preamble ++ written entries)).2.filterMap source? = entries.map Bibitem.source := by
  rw [items_append hpre (head?_written entries), items_entries h, List.filterMap_map]
  rw [← List.filterMap_eq_map]
  apply List.filterMap_congr
  intro e he
  exact source?_behind (h e he)

/-- Entries written out are read back, each with its key and its text, in their order and with those of a
key that was there before. What stands before the first entry does not matter, as long as no entry and no
end begins in it, nor does what stands behind the end, which may be missing. A search in two passes finds
the same. -/
theorem ofBibitems_write {search : Pattern → List Char → List Hit} (hsearch : IsSearch search)
    (preamble trailing : String) (entries : List Bibitem) (hpre : Plain preamble.toList)
    (hentries : ∀ e ∈ entries, e.Valid) :
    let text := preamble ++ String.join (entries.map Bibitem.write)
    let closed := text ++ "\\end\x7bthebibliography\x7d" ++ trailing
    ofBibitems text = entries.map Bibitem.source ∧ ofBibitems closed = entries.map Bibitem.source ∧
      ∀ s, searchWith search s = ofBibitems s := by
  intro text closed
  have htext : text.toList = preamble.toList ++ written entries :=
    toList_append_join preamble entries
  have hending : ¬ environmentEnd <:+: preamble.toList ++ written entries := by
    intro hending
    rcases Text.infix_append_of_head (by decide) (head?_written entries) hending with hfirst | hmore
    · exact hpre.ending hfirst
    · exact not_ending_written hentries hmore
  refine ⟨?_, ?_, searchWith_eq hsearch⟩
  · rw [ofBibitems_eq, body, htext, Text.cut_eq_none hending]
    exact filterMap_items hpre hentries
  · have hclosed : closed.toList = text.toList ++ (environmentEnd ++ trailing.toList) := by
      rw [String.toList_append, String.toList_append, List.append_assoc, environmentEnd_eq]
    rw [ofBibitems_eq, body, hclosed, htext, cut_ending hending]
    exact filterMap_items hpre hentries

theorem ofBibitems_write_repeated :
    let entries : List Bibitem := [⟨some "[A\x7d", "a", "First,\n  \\emph\x7b1\x7d."⟩, ⟨none, "b", ""⟩,
      ⟨some "", "a", "[l]\x7bk\x7d \\bib"⟩]
    let preamble := "\\begin\x7bthebibliography\x7d\\bibite\\"
    let text := preamble ++ String.join (entries.map Bibitem.write)
    let closed := text ++ "\\end\x7bthebibliography\x7d" ++ "\\bibitem\x7bc\x7d C."
    let sources : List Source := [⟨"a", "First,\n  \\emph\x7b1\x7d."⟩, ⟨"b", ""⟩,
      ⟨"a", "[l]\x7bk\x7d \\bib"⟩]
    Plain preamble.toList ∧ (∀ e ∈ entries, e.Valid) ∧ ofBibitems text = sources ∧
      ofBibitems closed = sources ∧ searchWith backtrack closed = sources := by
  intro entries preamble text closed sources
  have hpre : Plain preamble.toList := by decide +kernel
  have hentries : ∀ e ∈ entries, e.Valid := by decide +kernel
  obtain ⟨hopen, hclosed, hsearch⟩ := ofBibitems_write isSearch_backtrack preamble
    "\\bibitem\x7bc\x7d C." entries hpre hentries
  exact ⟨hpre, hentries, hopen, hclosed, (hsearch closed).trans hclosed⟩

end Manuscript.Bibliography
