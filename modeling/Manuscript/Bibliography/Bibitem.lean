import Manuscript.Bibliography.Basic
import Manuscript.Text.Blank
import Manuscript.Text.Search

/-! Bibliography entries written as `\bibitem[label]{key} text`. The text of an entry runs to the
next one, or to the end of the bibliography environment. -/
namespace Manuscript.Bibliography

/-- A label in brackets on one line, which may be missing; without its closer it is none. -/
def afterLabel (s : List Char) : List Char :=
  match s with
  | '[' :: r =>
    match r.dropWhile fun c => c != ']' && c != '\n' with
    | ']' :: rest => rest
    | _ => s
  | _ => s

def item? (s : List Char) : Option (List Char × List Char) :=
  if "bibitem".toList.isPrefixOf s then
    match afterLabel (s.drop 7) with
    | '{' :: r =>
      match r.dropWhile fun c => c != '}' && c != '\n' with
      | '}' :: rest => some (r.takeWhile fun c => c != '}' && c != '\n', rest)
      | _ => none
    | _ => none
  else none

theorem afterLabel_le (s : List Char) : (afterLabel s).length ≤ s.length := by
  unfold afterLabel
  split
  · rename_i r
    split
    · rename_i rest h
      have := (List.dropWhile_sublist (fun c => c != ']' && c != '\n') (l := r)).length_le
      rw [h] at this
      simp only [List.length_cons] at this ⊢
      omega
    · exact Nat.le_refl _
  · exact Nat.le_refl _

theorem item?_le {s key rest : List Char} (h : item? s = some (key, rest)) :
    rest.length ≤ s.length := by
  unfold item? at h
  split at h
  · have hl := afterLabel_le (s.drop 7)
    split at h
    · rename_i r he
      rw [he] at hl
      split at h
      · rename_i rest' hr
        cases h
        have := (List.dropWhile_sublist (fun c => c != '}' && c != '\n') (l := r)).length_le
        rw [hr] at this
        simp only [List.length_cons, List.length_drop] at this hl
        omega
      · cases h
    · cases h
  · cases h

def items : List Char → List Char × List (List Char × List Char)
  | [] => ([], [])
  | c :: s =>
    match _h : if c = '\\' then item? s else none with
    | some (key, rest) =>
      let (text, more) := items rest
      ([], (key, text) :: more)
    | none =>
      let (text, more) := items s
      (c :: text, more)
termination_by s => s.length
decreasing_by
  · split at _h
    · have := item?_le _h
      simp only [List.length_cons]
      omega
    · cases _h
  · simp

def environmentEnd : List Char := "\\end\x7bthebibliography\x7d".toList

def ofBibitems (text : String) : List Source :=
  let body := match Text.cut environmentEnd text.toList with
    | some (before, _) => before
    | none => text.toList
  (items body).2.filterMap fun i =>
    if Text.allBlank i.1 then none
    else some ⟨String.ofList (Text.trim i.1), String.ofList (Text.trim i.2)⟩

end Manuscript.Bibliography
