import Manuscript.Contents
import Manuscript.Heading.Level
import Manuscript.Heading.Slug

/-! Headings in section text. A heading lies on one line: either the line is a row of one to three
`#`, a space or tab and a text, or a sectioning command stands somewhere in it. -/
namespace Manuscript.Heading

structure Found where
  level : UInt32
  text : List Char
  deriving DecidableEq, Repr

def lines : List Char → List (List Char)
  | [] => [[]]
  | c :: s =>
    if c = '\n' then [] :: lines s
    else match lines s with
      -- there is always a line
      | [] => [[c]]
      | line :: more => (c :: line) :: more

def marked? (line : List Char) : Option Found :=
  let marks := (line.takeWhile (· == '#')).length
  match line.dropWhile (· == '#') with
  | c :: rest =>
    if 1 ≤ marks ∧ marks ≤ 3 ∧ (c = ' ' ∨ c = '\t') then
      if Text.allBlank rest then none else some ⟨UInt32.ofNat marks, Text.trim rest⟩
    else none
  | [] => none

def after? (word s : List Char) : Option (List Char) :=
  if word.isPrefixOf s then some (s.drop word.length) else none

def commandName? (s : List Char) : Option (UInt32 × List Char) :=
  match after? "section".toList s with
  | some r => some (1, r)
  | none => match after? "subsection".toList s with
    | some r => some (2, r)
    | none => (after? "subsubsection".toList s).map fun r => (3, r)

def command? (s : List Char) : Option (UInt32 × List Char × List Char) :=
  match commandName? s with
  | none => none
  | some (level, r) =>
    let r := match r with
      | '*' :: r => r
      | _ => r
    match r with
    | '{' :: r =>
      match r.takeWhile (fun c => c != '}' && c != '\n'),
          r.dropWhile (fun c => c != '}' && c != '\n') with
      | c :: text, '}' :: rest => some (level, c :: text, rest)
      | _, _ => none
    | _ => none

theorem after?_le {word s r : List Char} (h : after? word s = some r) : r.length ≤ s.length := by
  unfold after? at h
  split at h
  · cases h
    simp
  · cases h

theorem commandName?_le {s r : List Char} {level : UInt32}
    (h : commandName? s = some (level, r)) : r.length ≤ s.length := by
  unfold commandName? at h
  split at h
  · rename_i he
    cases h
    exact after?_le he
  · split at h
    · rename_i he
      cases h
      exact after?_le he
    · obtain ⟨t, ht, he⟩ := Option.map_eq_some_iff.mp h
      cases he
      exact after?_le ht

theorem command?_le {s text r : List Char} {level : UInt32}
    (h : command? s = some (level, text, r)) : r.length ≤ s.length := by
  unfold command? at h
  split at h
  · cases h
  · rename_i level' t he
    have ht := commandName?_le he
    have hstar : (match t with
        | '*' :: t => t
        | _ => t).length ≤ t.length := by
      split
      · exact Nat.le_succ _
      · exact Nat.le_refl _
    dsimp only at h
    split at h
    · rename_i u hu
      rw [hu] at hstar
      split at h
      · rename_i c text' rest hr
        cases h
        have := (List.dropWhile_sublist (fun c => c != '}' && c != '\n') (l := u)).length_le
        rw [hr] at this
        simp only [List.length_cons] at this hstar
        omega
      · cases h
    · cases h

def commands : List Char → List (UInt32 × List Char)
  | [] => []
  | c :: s =>
    if c = '\\' then
      match _h : command? s with
      | some (level, text, rest) => (level, text) :: commands rest
      | none => commands s
    else commands s
termination_by s => s.length
decreasing_by
  · have := command?_le _h
    simp only [List.length_cons]
    omega
  · simp
  · simp

/-- The headings of a line. Commands with nothing but blanks between their braces are none. -/
def ofLine (line : List Char) : List Found :=
  (marked? line).toList ++ (commands line).filterMap fun p =>
    if Text.allBlank p.2 then none else some ⟨p.1, Text.trim p.2⟩

def found (text : List Char) : List Found := (lines text).flatMap ofLine

def withSlugs (file : String) (a : Slug.Allocator) : List Found → List Heading × Slug.Allocator
  | [] => ([], a)
  | f :: more =>
    let text := String.ofList f.text
    let (slug, a) := a.allocate (Slug.slugify text)
    let (headings, a) := withSlugs file a more
    (⟨f.level, text, slug, file⟩ :: headings, a)

def extractWith (file text : String) (a : Slug.Allocator) : List Heading × Slug.Allocator :=
  withSlugs file a (found text.toList)

def extract (file text : String) : List Heading := (extractWith file text .empty).1

end Manuscript.Heading
