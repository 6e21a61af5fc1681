import Manuscript.Proofs.Bibliography.Numbering
import Manuscript.Reference

/-! What tokens resolve to, and what becomes of it when records are added. A citation or reference
is found exactly if a record has its key or slug. Records added at the end leave every span that was
found as it was, and find only what one of them names. -/
namespace Manuscript

namespace Contents

variable {c c' : Contents} {slug : String} {h : Heading}

theorem lookup?_eq_none_iff : c.lookup? slug = none ↔ slug ∉ c.headings.map Heading.slug := by
  simp [lookup?]

theorem slug_of_lookup? (hl : c.lookup? slug = some h) : h.slug = slug := by
  simpa using List.find?_some hl

theorem mem_of_lookup? (hl : c.lookup? slug = some h) : h ∈ c.headings :=
  List.mem_of_find?_eq_some hl

theorem lookup?_of_prefix (hc : c.headings <+: c'.headings) (hl : c.lookup? slug = some h) :
    c'.lookup? slug = some h :=
  hc.find?_eq_some hl

end Contents

namespace Span

def IsResolved : Span → Prop
  | citation _ _ _ | reference _ _ => True
  | text _ | math _ _ | missingCitation _ | missingReference _ => False

theorem not_isResolved_of_isUnresolved {s : Span} (h : s.isUnresolved = true) :
    ¬ s.IsResolved := by
  cases s with
  | missingCitation => exact id
  | missingReference => exact id
  | text | math | citation | reference => cases h

end Span

namespace Indices

open Markup (Token)

variable {i i' : Indices} {t : Token} {s : Span} {key target : String}
variable {headings more : List Heading} {sources others : List Source}

inductive Resolves (i : Indices) : Token → Span → Prop
  | text (text : String) : Resolves i (.text text) (.text text)
  | math (tex : String) (inline : Bool) (raw : String) :
      Resolves i (.math tex inline raw) (.math tex inline)
  | cited {key : String} {e : Bibliography.Entry} (raw : String) :
      i.bibliography.lookup? key = some e →
      Resolves i (.citation key raw) (.citation e.number key e.anchor)
  | uncited {key : String} (raw : String) : i.bibliography.lookup? key = none →
      Resolves i (.citation key raw) (.missingCitation key)
  | referred {target : String} {h : Heading} (raw : String) :
      i.contents.lookup? target = some h →
      Resolves i (.reference target raw) (.reference target target)
  | unreferred {target : String} (raw : String) : i.contents.lookup? target = none →
      Resolves i (.reference target raw) (.missingReference target)
  | unknown (raw : String) : Resolves i (.unknown raw) (.text raw)

theorem resolves (i : Indices) (t : Token) : Resolves i t (i.resolve t) := by
  cases t with
  | text text => exact .text text
  | math tex inline raw => exact .math tex inline raw
  | unknown raw => exact .unknown raw
  | citation key raw =>
    cases hl : i.bibliography.lookup? key with
    | none =>
      simp only [resolve, hl]
      exact .uncited raw hl
    | some e =>
      simp only [resolve, hl]
      rw [Bibliography.key_of_lookup? hl]
      exact .cited raw hl
  | reference target raw =>
    cases hl : i.contents.lookup? target with
    | none =>
      simp only [resolve, hl]
      exact .unreferred raw hl
    | some h =>
      simp only [resolve, hl]
      rw [Contents.slug_of_lookup? hl]
      exact .referred raw hl

theorem Resolves.eq (h : Resolves i t s) : i.resolve t = s := by
  cases h with
  | text => rfl
  | math => rfl
  | unknown => rfl
  | cited raw hl => simp only [resolve, hl, Bibliography.key_of_lookup? hl]
  | uncited raw hl => simp only [resolve, hl]
  | referred raw hl => simp only [resolve, hl, Contents.slug_of_lookup? hl]
  | unreferred raw hl => simp only [resolve, hl]

theorem entry_eq_none_iff :
    (build headings sources).bibliography.lookup? key = none ↔ key ∉ sources.map Source.key := by
  rw [Bibliography.lookup?_eq_none_iff]
  exact not_congr Bibliography.mem_keys_ofSources

theorem heading_eq_none_iff :
    (build headings sources).contents.lookup? target = none ↔
      target ∉ headings.map Heading.slug :=
  Contents.lookup?_eq_none_iff

theorem key_mem_of_found {e : Bibliography.Entry}
    (h : (build headings sources).bibliography.lookup? key = some e) :
    key ∈ sources.map Source.key := by
  by_contra hno
  rw [entry_eq_none_iff.mpr hno] at h
  cases h

theorem slug_mem_of_found {x : Heading}
    (h : (build headings sources).contents.lookup? target = some x) :
    target ∈ headings.map Heading.slug := by
  by_contra hno
  rw [heading_eq_none_iff.mpr hno] at h
  cases h

theorem resolve_reference_of_mem (h : target ∈ headings.map Heading.slug) (raw : String) :
    (build headings sources).resolve (.reference target raw) = .reference target target := by
  cases hl : (build headings sources).contents.lookup? target with
  | none => exact absurd h (heading_eq_none_iff.mp hl)
  | some x => exact (Resolves.referred raw hl).eq

theorem resolve_reference_of_notMem (h : target ∉ headings.map Heading.slug) (raw : String) :
    (build headings sources).resolve (.reference target raw) = .missingReference target :=
  (Resolves.unreferred raw (heading_eq_none_iff.mpr h)).eq

def Named (headings : List Heading) (sources : List Source) : Token → Prop
  | .citation key _ => key ∈ sources.map Source.key
  | .reference target _ => target ∈ headings.map Heading.slug
  | .text _ | .math _ _ _ | .unknown _ => False

instance (headings : List Heading) (sources : List Source) :
    (t : Token) → Decidable (Named headings sources t)
  | .citation key _ => inferInstanceAs (Decidable (key ∈ sources.map Source.key))
  | .reference target _ => inferInstanceAs (Decidable (target ∈ headings.map Heading.slug))
  | .text _ | .math _ _ _ | .unknown _ => inferInstanceAs (Decidable False)

theorem named_append : Named (headings ++ more) (sources ++ others) t ↔
    Named headings sources t ∨ Named more others t := by
  cases t <;> simp [Named]

theorem Resolves.isResolved_iff (h : Resolves (build headings sources) t s) :
    s.IsResolved ↔ Named headings sources t := by
  cases h with
  | text => exact Iff.rfl
  | math => exact Iff.rfl
  | unknown => exact Iff.rfl
  | cited raw hl => exact iff_of_true trivial (key_mem_of_found hl)
  | referred raw hl => exact iff_of_true trivial (slug_mem_of_found hl)
  | uncited raw hl => exact iff_of_false id (entry_eq_none_iff.mp hl)
  | unreferred raw hl => exact iff_of_false id (heading_eq_none_iff.mp hl)

/-- Indices to which records were added at the end. -/
structure Extends (i i' : Indices) : Prop where
  headings : i.contents.headings <+: i'.contents.headings
  entries : i.bibliography.entries <+: i'.bibliography.entries

theorem extends_build (headings more : List Heading) (sources others : List Source) :
    Extends (build headings sources) (build (headings ++ more) (sources ++ others)) :=
  ⟨List.prefix_append .., Bibliography.entries_prefix_ofSources_append ..⟩

theorem Resolves.of_extends (h : Resolves i t s) (hi : Extends i i')
    (hs : s.isUnresolved = false) : Resolves i' t s := by
  cases h with
  | text text => exact .text text
  | math tex inline raw => exact .math tex inline raw
  | unknown raw => exact .unknown raw
  | cited raw hl => exact .cited raw (Bibliography.lookup?_of_prefix hi.entries hl)
  | referred raw hl => exact .referred raw (Contents.lookup?_of_prefix hi.headings hl)
  | uncited => cases hs
  | unreferred => cases hs

theorem Resolves.found_iff {s' : Span} (h : Resolves (build headings sources) t s)
    (hs : s.isUnresolved = true)
    (h' : Resolves (build (headings ++ more) (sources ++ others)) t s') :
    s'.IsResolved ↔ Named more others t := by
  have hno : ¬ Named headings sources t := by
    rw [← h.isResolved_iff]
    exact Span.not_isResolved_of_isUnresolved hs
  rw [h'.isResolved_iff, named_append, or_iff_right hno]

theorem Resolves.number_of_found {number : Nat} {anchor : String}
    (h : Resolves (build headings sources) t s) (hs : s.isUnresolved = true)
    (h' : Resolves (build (headings ++ more) (sources ++ others)) t
      (.citation number key anchor)) :
    (sources.map Source.key).eraseDups.length < number := by
  cases h' with
  | cited raw hl' =>
    cases h with
    | cited => cases hs
    | uncited raw hl =>
      rw [← Bibliography.size_ofSources]
      exact (Bibliography.numbered_ofSources _).size_lt_number
        (Bibliography.entries_prefix_ofSources_append ..) hl hl'

/-- Records added at the end change no span that was found. A token that was not is found exactly if
one of them names it, and a citation found so has a number that was not given before. -/
theorem resolve_of_more_records (tokens : List Token) (headings more : List Heading)
    (sources others : List Source) {n : Nat} (ht : tokens[n]? = some t) :
    ∃ before after,
      (tokens.map (build headings sources).resolve)[n]? = some before ∧
      (tokens.map (build (headings ++ more) (sources ++ others)).resolve)[n]? = some after ∧
      (before.isUnresolved = false → after = before) ∧
      (before.isUnresolved = true →
        (after.IsResolved ↔ Named more others t) ∧
        ∀ number key anchor, after = .citation number key anchor →
          (sources.map Source.key).eraseDups.length < number) := by
  have hbefore := resolves (build headings sources) t
  have hafter := resolves (build (headings ++ more) (sources ++ others)) t
  refine ⟨_, _, by rw [List.getElem?_map, ht, Option.map_some],
    by rw [List.getElem?_map, ht, Option.map_some], ?_, ?_⟩
  · intro hs
    exact (hbefore.of_extends (extends_build ..) hs).eq
  · intro hs
    refine ⟨hbefore.found_iff hs hafter, ?_⟩
    intro number key anchor heq
    rw [heq] at hafter
    exact hbefore.number_of_found hs hafter

theorem resolve_of_more_records_repeated_key :
    let tokens : List Token := [.citation "b" "[cite:b]", .citation "c" "[cite:c]"]
    let sources : List Source := [⟨"a", ""⟩, ⟨"b", ""⟩, ⟨"a", ""⟩]
    let others : List Source := [⟨"b", ""⟩, ⟨"c", ""⟩]
    tokens[1]? = some (.citation "c" "[cite:c]") ∧
      ∃ after, (tokens.map (build ([] ++ []) (sources ++ others)).resolve)[1]? = some after ∧
        after.IsResolved ∧
        ∀ number key anchor, after = .citation number key anchor → 2 < number := by
  intro tokens sources others
  have ht : tokens[1]? = some (.citation "c" "[cite:c]") := rfl
  obtain ⟨before, after, hbefore, hafter, -, hnew⟩ :=
    resolve_of_more_records tokens [] [] sources others ht
  have hmissing : before = .missingCitation "c" :=
    Option.some.inj (hbefore.symm.trans (by decide))
  obtain ⟨hfound, hnumber⟩ := hnew (by rw [hmissing]; rfl)
  exact ⟨ht, after, hafter, hfound.mpr (by decide), hnumber⟩

end Indices
end Manuscript
