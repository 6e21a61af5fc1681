import Mathlib.Data.List.Basic
import Manuscript.Disk.Path
import Manuscript.Proofs.Text.Lossy

/-! Names in folders. A name with an extension is its stem, a dot and the extension, also where it is shown. A
name that is a text is shown as it is, so two such names differ in the paths and stems that are shown; of other
names this need not be so. -/
namespace Manuscript

section splitName

variable {α : Type}

theorem dropWhile_append_of_forall {p : α → Bool} {c : α} {s t : List α}
    (hs : ∀ d ∈ s, p d = true) (hc : p c = false) : (s ++ c :: t).dropWhile p = c :: t := by
  rw [List.dropWhile_append_of_pos hs, List.dropWhile_cons_of_neg (by simp [hc])]

variable [DecidableEq α] {dot : α} {name stem ext : List α}

/-- The last dot parts a name, unless nothing stands before it. -/
theorem splitName_eq_iff : splitName dot name = (stem, some ext) ↔
    name = stem ++ dot :: ext ∧ stem ≠ [] ∧ dot ∉ ext := by
  constructor
  · intro h
    have happend := List.takeWhile_append_dropWhile (p := (· ≠ dot)) (l := name.reverse)
    simp only [splitName] at h
    split at h
    · cases h
    · cases h
    · next d before hne hdrop =>
      rw [hdrop] at happend
      obtain ⟨rfl, hext⟩ := Prod.mk.inj h
      obtain rfl := Option.some.inj hext
      have hdot : d = dot := by
        have := List.head?_dropWhile_not (· ≠ dot) name.reverse
        rw [hdrop] at this
        simpa using this
      refine ⟨?_, ?_, ?_⟩
      · have := congrArg List.reverse happend
        simpa [hdot] using this.symm
      · intro hstem
        exact hne (List.reverse_eq_nil_iff.mp hstem)
      · intro hmem
        have := List.all_eq_true.mp List.all_takeWhile dot (List.mem_reverse.mp hmem)
        simp at this
  · rintro ⟨rfl, hstem, hext⟩
    have hreverse : (stem ++ dot :: ext).reverse = ext.reverse ++ dot :: stem.reverse := by simp
    have hkept : ∀ c ∈ ext.reverse, decide (c ≠ dot) = true := by
      intro c hc
      rw [decide_eq_true_eq]
      rintro rfl
      exact hext (List.mem_reverse.mp hc)
    have htake : (ext.reverse ++ dot :: stem.reverse).takeWhile (· ≠ dot) = ext.reverse := by
      rw [List.takeWhile_append_of_pos hkept, List.takeWhile_cons_of_neg (by simp), List.append_nil]
    simp only [splitName, hreverse, dropWhile_append_of_forall hkept (c := dot) (by simp), htake]
    cases hrev : stem.reverse with
    | nil => exact absurd (List.reverse_eq_nil_iff.mp hrev) hstem
    | cons c rest =>
      change ((c :: rest).reverse, some ext.reverse.reverse) = (stem, some ext)
      rw [← hrev, List.reverse_reverse, List.reverse_reverse]

end splitName

namespace FileName

variable {n : FileName} {text : String} {stem ext : List UInt8}

theorem extension?_eq_some_iff : n.extension? = some ext ↔
    ∃ stem, n.bytes = stem ++ dot :: ext ∧ stem ≠ [] ∧ dot ∉ ext := by
  constructor
  · intro h
    exact ⟨_, splitName_eq_iff.mp (Prod.ext rfl h)⟩
  · rintro ⟨stem, h⟩
    rw [extension?, splitName_eq_iff.mpr h]

theorem stem_eq (h : n.bytes = stem ++ dot :: ext ∧ stem ≠ [] ∧ dot ∉ ext) :
    n.stem = Text.lossy stem := by
  rw [FileName.stem, splitName_eq_iff.mpr h]

theorem text?_eq_some_iff : n.text? = some text ↔ n = ofText text := by
  obtain ⟨bytes⟩ := n
  rw [text?, Text.ofUtf8?_eq_some_iff, ofText, mk.injEq]

theorem shown_ofText (text : String) : (ofText text).shown = text := Text.lossy_toUtf8 text

theorem slash_mem_of_text (h : '/' ∈ text.toList) : (47 : UInt8) ∈ (ofText text).bytes := by
  rw [ofText, Text.toUtf8_eq]
  exact List.mem_flatMap.mpr ⟨'/', h, by decide⟩

end FileName

theorem Path.eq_of_join_eq {folder a b : String} (ha : '/' ∉ a.toList) (hb : '/' ∉ b.toList)
    (h : join folder a = join folder b) : a = b := by
  have hno : ∀ {name : String}, '/' ∉ name.toList → isAbsolute name = false := by
    intro name hname
    rw [isAbsolute, decide_eq_false_iff_not]
    intro hhead
    exact hname (List.mem_of_mem_head? hhead)
  simp only [join, hno ha, hno hb, Bool.false_eq_true, if_false] at h
  split at h <;> simpa using h

structure Disk.Listing (names : List FileName) : Prop where
  nodup : names.Nodup
  slash_notMem : ∀ name ∈ names, 47 ∉ name.bytes

end Manuscript
