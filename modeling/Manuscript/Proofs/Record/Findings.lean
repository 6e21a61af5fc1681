import Manuscript.Proofs.Finding
import Manuscript.Proofs.Record.Section
import Manuscript.Record.Bibliography
import Manuscript.Record.Contents

/-! What the readers of records report: each of them findings of its own, about its own file. -/
namespace Manuscript.Record

variable {v : Json} {items : List Json} {index : Nat} {file sectionId : String} {g : Finding}

theorem place_of_mem_textItems (h : g ∈ (textItems file sectionId index items).2) :
    g.place = (.sections, file) := by
  induction items generalizing index with
  | nil => cases h
  | cons v items ih =>
    cases v with
    | string t => exact ih h
    | _ =>
      rcases List.mem_cons.mp h with rfl | h
      · rfl
      · exact ih h

theorem place_of_mem_visit {visit : Visit} (h : g ∈ visit.findings file) :
    g.place = (.sections, file) := by
  cases visit with
  | rejected v =>
    simp only [Visit.findings] at h
    split at h <;> rw [List.mem_singleton.mp h] <;> rfl
  | record depth r =>
    obtain ⟨title, id, level, content, subsections⟩ := r
    simp only [Visit.findings] at h
    cases content with
    | none => cases h
    | some c =>
      cases c with
      | one t => cases h
      | many items => exact place_of_mem_textItems h
      | other v =>
        rw [List.mem_singleton.mp h]
        rfl

theorem place_of_mem_loadSection (h : g ∈ (loadSection file v).findings) :
    g.place = (.sections, file) := by
  by_cases hkind : v.kind = .object ∨ v.kind = .array
  · rw [loadSection_eq file v hkind] at h
    obtain ⟨visit, -, hg⟩ := List.mem_flatMap.mp h
    exact place_of_mem_visit hg
  · cases v with
    | object fields => exact absurd (.inl rfl) hkind
    | array items => exact absurd (.inr rfl) hkind
    | _ =>
      rw [List.mem_singleton.mp h]
      rfl

theorem place_of_mem_readEntries (h : g ∈ (readEntries index items).2) :
    g.place = (.contents, "toc") := by
  induction items generalizing index with
  | nil => cases h
  | cons v items ih =>
    simp only [readEntries] at h
    split at h
    · exact ih h
    · rcases List.mem_cons.mp h with rfl | h
      · rfl
      · exact ih h

theorem place_of_mem_ofEntries {about : Option Meta} (h : g ∈ (ofEntries items about).findings) :
    g.place = (.contents, "toc") := by
  rcases List.mem_append.mp h with h | h
  · exact place_of_mem_readEntries h
  · obtain ⟨slug, -, rfl⟩ := List.mem_map.mp h
    rfl

theorem place_of_mem_loadContents (h : g ∈ (loadContents v).findings) :
    g.place = (.contents, "toc") := by
  cases v with
  | array items => exact place_of_mem_ofEntries h
  | object fields =>
    simp only [loadContents] at h
    split at h
    · exact place_of_mem_ofEntries h
    · rw [List.mem_singleton.mp h]
      rfl
  | _ =>
    rw [List.mem_singleton.mp h]
    rfl

theorem place_of_mem_readSources (h : g ∈ (readSources index items).2) :
    g.place = (.sources, "bibliography") := by
  induction items generalizing index with
  | nil => cases h
  | cons v items ih =>
    simp only [readSources] at h
    split at h
    · exact ih h
    · rcases List.mem_cons.mp h with rfl | h
      · rfl
      · exact ih h

theorem place_of_mem_loadBibliography (h : g ∈ (loadBibliography v).findings) :
    g.place = (.sources, "bibliography") := by
  cases v with
  | array items => exact place_of_mem_readSources h
  | _ =>
    rw [List.mem_singleton.mp h]
    rfl

end Manuscript.Record
