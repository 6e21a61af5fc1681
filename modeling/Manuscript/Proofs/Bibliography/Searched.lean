import Manuscript.Proofs.Bibliography.Opening
import Manuscript.Proofs.Text.Search

/-! Bibliography entries searched for in two passes, one for the end of the bibliography and one for the
openings of entries before it; the text of an entry is what stands between its opening and the next one.
Main statement: this gives the entries read from left to right. -/
namespace Manuscript.Bibliography

open Pattern

def endPattern : Pattern := .literal environmentEnd

def bodyOf (search : Pattern → List Char → List Hit) (text : List Char) : List Char :=
  text.take (((search endPattern text).head?.map Hit.start).getD text.length)

structure Place where
  key : List Char
  start : Nat
  stop : Nat

def place? (x : Hit) : Option Place :=
  (x.group? 1).map fun key => ⟨Text.trim key, x.start, x.stop⟩

/-- The entries at these places. The text of each ends where the next one starts, be its key blank or
not, or where the body ends. -/
def sourcesAt (body : List Char) : List Place → List Source
  | [] => []
  | p :: places =>
    let stop := (places.head?.map Place.start).getD body.length
    let text := (body.take stop).drop p.stop
    if p.key.isEmpty then sourcesAt body places
    else ⟨String.ofList p.key, String.ofList (Text.trim text)⟩ :: sourcesAt body places

def searchWith (search : Pattern → List Char → List Hit) (text : String) : List Source :=
  let body := bodyOf search text.toList
  sourcesAt body ((search Opening.pattern body).filterMap place?)

def source? (i : List Char × List Char) : Option Source :=
  if Text.allBlank i.1 then none
  else some ⟨String.ofList (Text.trim i.1), String.ofList (Text.trim i.2)⟩

def body (text : List Char) : List Char := ((Text.cut environmentEnd text).map Prod.fst).getD text

theorem ofBibitems_eq (text : String) :
    ofBibitems text = (items (body text.toList)).2.filterMap source? := by
  rw [ofBibitems, body]
  cases Text.cut environmentEnd text.toList <;> rfl

variable {fresh : Bool} {i : Nat} {s word before : List Char} {hits : List Hit}

/-! The end of the bibliography. -/

theorem takesSome_literal (hword : word ≠ []) : (literal word).TakesSome := by
  intro fresh s w hw
  obtain ⟨r, -, rfl⟩ := mem_ways_literal.mp hw
  exact hword

theorem cut_of_finds (hword : word ≠ []) (h : Finds (literal word) fresh i s hits) :
    (Text.cut word s).map (fun c => i + c.1.length) = hits.head?.map Hit.start := by
  induction h with
  | done _ => simp [Text.cut, hword]
  | @pass fresh i c s hits hnone _ ih =>
    have hno : ¬ word.isPrefixOf (c :: s) = true := by
      rw [List.isPrefixOf_iff_prefix]
      rintro ⟨r, hr⟩
      have hway : ⟨word, r, []⟩ ∈ (literal word).ways fresh (c :: s) :=
        mem_ways_literal.mpr ⟨r, hr.symm, rfl⟩
      rw [hnone] at hway
      cases hway
    rw [Text.cut, if_neg hno, ← ih]
    cases Text.cut word s with
    | none => rfl
    | some p => simp only [Option.map_some, List.length_cons, Nat.add_comm, Nat.add_left_comm]
  | @hit fresh i s w hits hw _ _ _ =>
    obtain ⟨r, rfl, -⟩ := mem_ways_literal.mp (List.mem_of_mem_head? hw)
    obtain ⟨d, rest, rfl⟩ := List.exists_cons_of_ne_nil hword
    have hprefix : (d :: rest).isPrefixOf (d :: rest ++ r) = true :=
      List.isPrefixOf_iff_prefix.mpr (List.prefix_append ..)
    rw [List.cons_append] at hprefix ⊢
    rw [Text.cut, if_pos hprefix]
    rfl

theorem bodyOf_eq {search : Pattern → List Char → List Hit} (hsearch : IsSearch search)
    (text : List Char) : bodyOf search text = body text := by
  have hword : environmentEnd ≠ [] := by decide
  have hfinds : Finds endPattern true 0 text (search endPattern text) :=
    hsearch _ (takesSome_literal hword) text
  rw [bodyOf, ← cut_of_finds hword hfinds, body]
  cases hcut : Text.cut environmentEnd text with
  | none => exact List.take_length
  | some p =>
    have htext : text = p.1 ++ (environmentEnd ++ p.2) := Text.eq_of_cut hcut
    simp only [Option.map_some, Option.getD_some, Nat.zero_add]
    rw [htext, List.take_left]

/-! The entries. -/

theorem items_fst_isPrefix (s : List Char) : (items s).1 <+: s := by
  induction s with
  | nil => exact ⟨[], by simp [items]⟩
  | cons c s ih =>
    rw [items]
    split
    · exact List.nil_prefix
    · exact List.cons_prefix_cons.mpr ⟨rfl, ih⟩

theorem take_drop_of_prefix {t : List Char} (h : t <+: s) (before : List Char) :
    ((before ++ s).take (before.length + t.length)).drop before.length = t := by
  obtain ⟨r, rfl⟩ := h
  rw [List.take_length_add_append, List.drop_left, List.take_left]

theorem item?_eq_none_of_ways (h : Opening.pattern.ways fresh ('\\' :: s) = []) :
    item? s = none := by
  rw [Option.eq_none_iff_forall_ne_some]
  rintro ⟨key, rest⟩ hread
  obtain ⟨o, ho, hs, -⟩ := Opening.item?_eq_some_iff.mp hread
  have hnone : ∀ w, w ∉ Opening.pattern.ways fresh ('\\' :: s) :=
    List.eq_nil_iff_forall_not_mem.mp h
  exact hnone _ (Opening.mem_ways_pattern.mpr ⟨o, rest, ho, hs, rfl⟩)

theorem sourcesAt_cons {body key : List Char} {start stop next : Nat} {places : List Place}
    (hnext : (places.head?.map Place.start).getD body.length = next) :
    sourcesAt body (⟨Text.trim key, start, stop⟩ :: places) =
      (source? (key, (body.take next).drop stop)).toList ++ sourcesAt body places := by
  subst hnext
  simp only [sourcesAt, source?]
  cases hblank : Text.allBlank key with
  | true =>
    rw [Text.trim_eq_nil_iff.mpr hblank]
    rfl
  | false =>
    have hne : Text.trim key ≠ [] := fun hnil => by
      rw [Text.trim_eq_nil_iff.mp hnil] at hblank
      cases hblank
    simp [hne]

theorem sourcesAt_found (h : Finds Opening.pattern fresh i s hits) (hbefore : before.length = i) :
    let places := hits.filterMap place?
    (places.head?.map Place.start).getD (before ++ s).length = i + (items s).1.length ∧
      sourcesAt (before ++ s) places = (items s).2.filterMap source? := by
  induction h generalizing before with
  | done => simp [items, sourcesAt, hbefore]
  | @pass fresh i c s hits hnone _ ih =>
    have hlen : (before ++ [c]).length = i + 1 := by simp [hbefore]
    obtain ⟨hstart, hsources⟩ := ih hlen
    rw [Opening.items_of_none fun hc => item?_eq_none_of_ways (hc ▸ hnone)]
    rw [List.append_assoc, List.singleton_append] at hstart hsources
    refine ⟨?_, hsources⟩
    rw [hstart, List.length_cons]
    omega
  | @hit fresh i s w hits hw _ _ ih =>
    obtain ⟨o, rest, ho, rfl, rfl⟩ := Opening.mem_ways_pattern.mp (List.mem_of_mem_head? hw)
    have hlen : (before ++ o.written).length = i + o.written.length := by simp [hbefore]
    obtain ⟨hstart, hsources⟩ := ih hlen
    rw [List.append_assoc] at hstart hsources
    have hplace : place? ⟨i, o.written, [(1, o.key)]⟩ =
        some ⟨Text.trim o.key, i, i + o.written.length⟩ := rfl
    have htext := take_drop_of_prefix (items_fst_isPrefix rest) (before ++ o.written)
    rw [List.append_assoc, List.length_append, hbefore] at htext
    rw [Opening.items_written ho, List.filterMap_cons_some hplace]
    refine ⟨rfl, ?_⟩
    rw [sourcesAt_cons hstart, htext, hsources, List.filterMap_cons]
    cases source? (o.key, (items rest).1) <;> rfl

/-- Searching in two passes finds the entries read from left to right. -/
theorem searchWith_eq {search : Pattern → List Char → List Hit} (hsearch : IsSearch search)
    (text : String) : searchWith search text = ofBibitems text := by
  have hfinds := hsearch _ Opening.takesSome_pattern (bodyOf search text.toList)
  have hnone : ([] : List Char).length = 0 := rfl
  rw [searchWith, ofBibitems_eq, ← bodyOf_eq hsearch]
  exact (sourcesAt_found hfinds hnone).2

end Manuscript.Bibliography
