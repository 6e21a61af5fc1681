import Manuscript.Text.Blank

/-! Citation keys and reference targets: not empty, free of blanks and of the characters that
delimit macros. -/
namespace Manuscript.Markup

def isDelimiter (c : Char) : Bool :=
  c == '[' || c == ']' || c == '{' || c == '}' || c == ',' || c == ';' || c == '@' || c == '$' ||
    c == '\\'

def isIdentifierChar (c : Char) : Bool := !Text.isBlank c && !isDelimiter c

def isIdentifier (s : List Char) : Bool := !s.isEmpty && s.all isIdentifierChar

theorem isIdentifier_iff {s : List Char} : isIdentifier s = true ↔
    s ≠ [] ∧ ∀ c ∈ s, Text.isBlank c = false ∧ isDelimiter c = false := by
  simp [isIdentifier, isIdentifierChar]

end Manuscript.Markup
