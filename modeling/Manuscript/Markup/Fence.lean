import Manuscript.Markup.Token
import Manuscript.Text.Blank

/-! Math delimiters whose closer may lie anywhere in the rest of the text. -/
namespace Manuscript.Markup

inductive Environment
  | equation
  | equationStar
  | align
  | alignStar
  deriving DecidableEq, Repr

namespace Environment

def name : Environment → String
  | equation => "equation"
  | equationStar => "equation*"
  | align => "align"
  | alignStar => "align*"

def all : List Environment := [equation, equationStar, align, alignStar]

def named? (s : List Char) : Option Environment := all.find? fun e => e.name.toList == s

/-- Alignment marks mean something only inside their environment, so the environment is kept. -/
def keepsDelimiters : Environment → Bool
  | equation | equationStar => false
  | align | alignStar => true

end Environment

inductive Fence
  | dollars
  | paren
  | bracket
  | environment (e : Environment)
  deriving DecidableEq, Repr

namespace Fence

def closer : Fence → List Char
  | dollars => ['$', '$']
  | paren => ['\\', ')']
  | bracket => ['\\', ']']
  | environment e => "\\end\x7b".toList ++ e.name.toList ++ ['}']

def isInline : Fence → Bool
  | paren => true
  | dollars | bracket | environment _ => false

def keepsDelimiters : Fence → Bool
  | environment e => e.keepsDelimiters
  | dollars | paren | bracket => false

/-- The token of a fence whose opener was `opener`, given the text before its closer and after it.
Without a closer the opener alone is unknown; with nothing but blanks inside, all of it is. -/
def close (f : Fence) (opener body : List Char) :
    Option (List Char × List Char) → Token × List Char
  | none => (.unknown (String.ofList opener), body)
  | some (tex, rest) =>
    let raw := opener ++ (tex ++ f.closer)
    if Text.allBlank tex then (.unknown (String.ofList raw), rest)
    else
      (.math (String.ofList (if f.keepsDelimiters then raw else tex)) f.isInline
        (String.ofList raw), rest)

end Fence
end Manuscript.Markup
