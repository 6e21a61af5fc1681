import Manuscript.Text.Blank
import Manuscript.Text.Decimal

/-! Heading levels: a number, with or without `h` before it, or the name of a sectioning command. -/
namespace Manuscript.Level

def number? (s : List Char) : Option UInt32 :=
  let digits := match s with
    | '+' :: r => r
    | _ => s
  match Text.natural? digits with
  | some n => if n < UInt32.size then some (UInt32.ofNat n) else none
  | none => none

def named? (s : List Char) : Option UInt32 :=
  if s = "chapter".toList ∨ s = "section".toList then some 1
  else if s = "subsection".toList then some 2
  else if s = "subsubsection".toList then some 3
  else none

def withoutMark (s : List Char) : List Char :=
  match s with
  | c :: r => if c = 'h' ∨ c = 'H' then r else s
  | [] => []

def parse? (text : String) : Option UInt32 :=
  let s := Text.trim text.toList
  (number? (withoutMark s)).or (named? s)

end Manuscript.Level
