import Manuscript.Proofs.Document.References

/-! Markers of a built document. A link is the anchor of an entry or of a heading. Both kinds of anchors
are names of one space, so a link tells its target but for one case, that a slug is the anchor of an
entry. The label of what is missing has a question mark, which a key or a slug may begin with as well;
the kind of the marker and its link tell the two apart in any case. -/
namespace Manuscript

/-- What a citation or reference leads to. -/
inductive Target
  | entry (key : String)
  | heading (slug : String)
  deriving DecidableEq, Repr

namespace Target

variable {a b : Target}

def anchor : Target → String
  | entry key => Bibliography.anchor key
  | heading slug => slug

def IsIn (headings : List Heading) (sources : List Source) : Target → Prop
  | entry key => key ∈ sources.map Source.key
  | heading slug => slug ∈ headings.map Heading.slug

/-- An entry and a heading that has the anchor of the entry as its slug. -/
def Shadows (a b : Target) : Prop :=
  ∃ key, a = .entry key ∧ b = .heading (Bibliography.anchor key)

theorem anchor_entry_inj {key key' : String}
    (h : Bibliography.anchor key = Bibliography.anchor key') : key = key' :=
  (String.append_right_inj _).mp h

theorem anchor_eq_iff : a.anchor = b.anchor ↔ a = b ∨ Shadows a b ∨ Shadows b a := by
  constructor
  · intro h
    cases a with
    | entry key =>
      cases b with
      | entry key' => exact .inl (congrArg entry (anchor_entry_inj h))
      | heading slug => exact .inr (.inl ⟨key, rfl, congrArg heading h.symm⟩)
    | heading slug =>
      cases b with
      | entry key => exact .inr (.inr ⟨key, rfl, congrArg heading h⟩)
      | heading slug' => exact .inl (congrArg heading h)
  · rintro (rfl | ⟨key, rfl, rfl⟩ | ⟨key, rfl, rfl⟩) <;> rfl

end Target

namespace Span

variable {s t : Span} {k n : String}

def target? : Span → Option Target
  | citation _ key _ => some (.entry key)
  | reference label _ => some (.heading label)
  | text _ | math _ _ | missingCitation _ | missingReference _ => none

def name? : Span → Option String
  | citation _ key _ | missingCitation key => some key
  | reference slug _ | missingReference slug => some slug
  | text _ | math _ _ => none

theorem marker?_of_isUnresolved (h : s.isUnresolved = true) :
    ∃ k, s.name? = some k ∧ s.marker? = some ⟨"[?" ++ k ++ "]", none, .unresolved⟩ := by
  cases s with
  | missingCitation key => exact ⟨key, rfl, rfl⟩
  | missingReference slug => exact ⟨slug, rfl, rfl⟩
  | _ => cases h

theorem marker?_of_isResolved (h : t.IsResolved) : ∃ n m, t.name? = some n ∧ t.marker? = some m ∧
    m.label = "[" ++ n ++ "]" ∧ m.link ≠ none ∧ m.kind ≠ .unresolved := by
  cases t with
  | citation number key anchor => exact ⟨key, _, rfl, rfl, rfl, nofun, nofun⟩
  | reference slug anchor => exact ⟨slug, _, rfl, rfl, rfl, nofun, nofun⟩
  | _ => cases h

theorem label_eq_iff : "[?" ++ k ++ "]" = "[" ++ n ++ "]" ↔ n = "?" ++ k := by
  have hmark : "[?" ++ k ++ "]" = "[" ++ ("?" ++ k) ++ "]" := by
    rw [← String.append_assoc]
    rfl
  rw [hmark, String.append_left_inj, String.append_right_inj, eq_comm]

end Span

namespace Indices

variable {i : Indices} {t t' : Markup.Token} {s s' : Span} {m m' : Marker} {a : Target} {n : String}
variable {headings : List Heading} {sources : List Source}

theorem Resolves.link (h : Resolves i t s) (hm : s.marker? = some m) :
    m.link = s.target?.map fun a => "#" ++ a.anchor := by
  cases h with
  | text | math | unknown => cases hm
  | cited raw hl =>
    cases hm
    rw [Bibliography.Entry.anchor, Bibliography.key_of_lookup? hl]
    rfl
  | referred | uncited | unreferred =>
    cases hm
    rfl

theorem Resolves.isIn (h : Resolves (build headings sources) t s) (ha : s.target? = some a) :
    a.IsIn headings sources := by
  cases h with
  | cited raw hl =>
    cases ha
    exact key_mem_of_found hl
  | referred raw hl =>
    cases ha
    exact slug_mem_of_found hl
  | _ => cases ha

theorem Resolves.same_link_iff (h : Resolves (build headings sources) t s)
    (h' : Resolves (build headings sources) t' s') (hm : s.marker? = some m)
    (hm' : s'.marker? = some m') : m.link ≠ none ∧ m.link = m'.link ↔
      ∃ a b, s.target? = some a ∧ s'.target? = some b ∧ a.IsIn headings sources ∧
        b.IsIn headings sources ∧ (a = b ∨ Target.Shadows a b ∨ Target.Shadows b a) := by
  rw [h.link hm, h'.link hm']
  constructor
  · rintro ⟨hsome, heq⟩
    obtain ⟨link, hlink⟩ := Option.ne_none_iff_exists'.mp hsome
    obtain ⟨a, ha, rfl⟩ := Option.map_eq_some_iff.mp hlink
    obtain ⟨b, hb, hb'⟩ := Option.map_eq_some_iff.mp (heq.symm.trans hlink)
    have hanchor : a.anchor = b.anchor := ((String.append_right_inj "#").mp hb').symm
    exact ⟨a, b, ha, hb, h.isIn ha, h'.isIn hb, Target.anchor_eq_iff.mp hanchor⟩
  · rintro ⟨a, b, ha, hb, -, -, hab⟩
    rw [ha, hb, Option.map_some, Option.map_some, Target.anchor_eq_iff.mpr hab]
    exact ⟨nofun, rfl⟩

theorem Resolves.name_mem (h : Resolves (build headings sources) t s) (hs : s.IsResolved)
    (hn : s.name? = some n) : n ∈ sources.map Source.key ∨ n ∈ headings.map Heading.slug := by
  cases h with
  | cited raw hl =>
    cases hn
    exact .inl (key_mem_of_found hl)
  | referred raw hl =>
    cases hn
    exact .inr (slug_mem_of_found hl)
  | _ => cases hs

end Indices

namespace Document

variable {i : Indices} {content : Content}

def spans (d : Document) : List Span := d.sections.flatMap fun s => s.blocks.flatMap Block.body

theorem resolves_of_mem_spans {span : Span} (h : span ∈ (build content i).spans) :
    ∃ t, i.Resolves t span := by
  obtain ⟨s, hs, hspan⟩ := List.mem_flatMap.mp h
  obtain ⟨b, hb, hspan⟩ := List.mem_flatMap.mp hspan
  exact resolves_of_mem_body hs hb hspan

/-! Links. -/

/-- Two markers have one link exactly if they lead to the same entry or heading, or one leads to an
entry and the other to a heading whose slug is the anchor of that entry. The records they lead to are
there, so that links tell targets apart if no slug is the anchor of an entry. -/
theorem link_eq_iff (content : Content) (headings : List Heading) (sources : List Source) :
    let d := build content (Indices.build headings sources)
    ∀ s ∈ d.spans, ∀ t ∈ d.spans, ∀ m m', s.marker? = some m → t.marker? = some m' →
      (m.link ≠ none ∧ m.link = m'.link ↔
        ∃ a b, s.target? = some a ∧ t.target? = some b ∧ a.IsIn headings sources ∧
          b.IsIn headings sources ∧ (a = b ∨ Target.Shadows a b ∨ Target.Shadows b a)) ∧
      ((∀ key ∈ sources.map Source.key, Bibliography.anchor key ∉ headings.map Heading.slug) →
        m.link ≠ none → m.link = m'.link → s.target? = t.target?) := by
  intro d s hs t ht m m' hm hm'
  obtain ⟨token, hresolves⟩ := resolves_of_mem_spans hs
  obtain ⟨token', hresolves'⟩ := resolves_of_mem_spans ht
  have hlinks := hresolves.same_link_iff hresolves' hm hm'
  refine ⟨hlinks, ?_⟩
  intro hapart hsome heq
  obtain ⟨a, b, ha, hb, hina, hinb, rfl | ⟨key, rfl, rfl⟩ | ⟨key, rfl, rfl⟩⟩ :=
    hlinks.mp ⟨hsome, heq⟩
  · rw [ha, hb]
  · exact absurd hinb (hapart key hina)
  · exact absurd hina (hapart key hinb)

theorem link_eq_iff_one_name :
    let content : Content := .ofList [("f", [⟨"k", "K", "h1", "[cite:a,k] [ref:k]"⟩])]
    let headings : List Heading := [⟨1, "K", "k", "f"⟩]
    let sources : List Source := [⟨"a", ""⟩, ⟨"k", ""⟩]
    let d := build content (Indices.build headings sources)
    let s : Span := .citation 2 "k" "citation-k"
    let t : Span := .reference "k" "k"
    s ∈ d.spans ∧ t ∈ d.spans ∧
      (∀ key ∈ sources.map Source.key, Bibliography.anchor key ∉ headings.map Heading.slug) ∧
      ∃ m m', s.marker? = some m ∧ t.marker? = some m' ∧ m.label = m'.label ∧ m.link ≠ m'.link := by
  intro content headings sources d s t
  have hs : s ∈ d.spans := by decide +kernel
  have ht : t ∈ d.spans := by decide +kernel
  have hapart : ∀ key ∈ sources.map Source.key,
      Bibliography.anchor key ∉ headings.map Heading.slug := by decide
  obtain ⟨-, hsame⟩ := link_eq_iff content headings sources s hs t ht _ _ rfl rfl
  refine ⟨hs, ht, hapart, _, _, rfl, rfl, rfl, ?_⟩
  intro heq
  exact absurd (hsame hapart nofun heq) (by decide)

/-- A heading with the anchor of an entry as its slug: a citation and a reference have one link. -/
theorem exists_shared_link :
    ∃ (content : Content) (headings : List Heading) (sources : List Source),
      let d := build content (Indices.build headings sources)
      ∃ s ∈ d.spans, ∃ t ∈ d.spans, ∃ m m', s.marker? = some m ∧ t.marker? = some m' ∧
        m.link = some "#citation-x" ∧ m'.link = some "#citation-x" ∧
        s.target? = some (.entry "x") ∧ t.target? = some (.heading "citation-x") := by
  refine ⟨.ofList [("f", [⟨"citation-x", "X", "h1", "[cite:x][ref:citation-x]"⟩])],
    [⟨1, "X", "citation-x", "f"⟩], [⟨"x", ""⟩], .citation 1 "x" "citation-x", by decide +kernel,
    .reference "citation-x" "citation-x", by decide +kernel, _, _, rfl, rfl, rfl, rfl, rfl, rfl⟩

/-! Labels. -/

/-- What is missing never has the marker of what was found: it is marked as unresolved and has no
link. The labels are the same exactly if what was found is called like what is missing, behind a
question mark; so they differ if no key and no slug begins with one. -/
theorem label_of_unresolved (content : Content) (headings : List Heading)
    (sources : List Source) :
    let d := build content (Indices.build headings sources)
    ∀ s ∈ d.spans, ∀ t ∈ d.spans, s.isUnresolved = true → t.IsResolved →
      ∃ k n m m', s.name? = some k ∧ t.name? = some n ∧ s.marker? = some m ∧ t.marker? = some m' ∧
        (m.kind = .unresolved ∧ m'.kind ≠ .unresolved) ∧ (m.link = none ∧ m'.link ≠ none) ∧
        (n ∈ sources.map Source.key ∨ n ∈ headings.map Heading.slug) ∧
        (m.label = m'.label ↔ n = "?" ++ k) ∧
        ((∀ name ∈ sources.map Source.key ++ headings.map Heading.slug,
          name.toList.head? ≠ some '?') → m.label ≠ m'.label) := by
  intro d s hs t ht hmissing hfound
  obtain ⟨token, hresolves⟩ := resolves_of_mem_spans ht
  obtain ⟨k, hk, hm⟩ := Span.marker?_of_isUnresolved hmissing
  obtain ⟨n, m', hn, hm', hlabel, hlink, hkind⟩ := Span.marker?_of_isResolved hfound
  have hmem := hresolves.name_mem hfound hn
  have hiff : "[?" ++ k ++ "]" = m'.label ↔ n = "?" ++ k := by
    rw [hlabel]
    exact Span.label_eq_iff
  refine ⟨k, n, _, m', hk, hn, hm, hm', ⟨rfl, hkind⟩, ⟨rfl, hlink⟩, hmem, hiff, ?_⟩
  intro hplain heq
  rw [hiff.mp heq] at hmem
  apply hplain ("?" ++ k) (List.mem_append.mpr hmem)
  rw [String.toList_append]
  rfl

theorem label_of_unresolved_one_name :
    let content : Content := .ofList [("f", [⟨"k", "K", "h1", "[cite:k] [ref:k]"⟩])]
    let headings : List Heading := [⟨1, "K", "k", "f"⟩]
    let sources : List Source := [⟨"a", ""⟩]
    let d := build content (Indices.build headings sources)
    let s : Span := .missingCitation "k"
    let t : Span := .reference "k" "k"
    s ∈ d.spans ∧ t ∈ d.spans ∧ s.isUnresolved = true ∧ t.IsResolved ∧
      ∃ m m', s.marker? = some m ∧ t.marker? = some m' ∧ m.kind ≠ m'.kind ∧ m.label ≠ m'.label := by
  intro content headings sources d s t
  have hs : s ∈ d.spans := by decide +kernel
  have ht : t ∈ d.spans := by decide +kernel
  obtain ⟨k, n, m, m', -, -, hm, hm', ⟨hkind, hkind'⟩, -, -, -, hplain⟩ :=
    label_of_unresolved content headings sources s hs t ht rfl trivial
  refine ⟨hs, ht, rfl, trivial, m, m', hm, hm', ?_, hplain (by decide)⟩
  rw [hkind]
  exact hkind'.symm

/-- A key that begins with a question mark is shown like a missing key without it. -/
theorem exists_shared_label :
    ∃ (content : Content) (headings : List Heading) (sources : List Source),
      let d := build content (Indices.build headings sources)
      ∃ s ∈ d.spans, ∃ t ∈ d.spans, ∃ m m', s.isUnresolved = true ∧ t.IsResolved ∧
        s.marker? = some m ∧ t.marker? = some m' ∧ m.label = "[?x]" ∧ m'.label = "[?x]" := by
  refine ⟨.ofList [("f", [⟨"f", "F", "h1", "[cite:x][cite:?x]"⟩])], [], [⟨"?x", ""⟩],
    .missingCitation "x", by decide +kernel, .citation 1 "?x" "citation-?x", by decide +kernel,
    _, _, rfl, trivial, rfl, rfl, by decide, by decide⟩

end Document
end Manuscript
