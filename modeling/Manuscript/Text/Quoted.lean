import Manuscript.Text.Printable

/-! Strings shown in messages: in double quotes, with everything escaped that would not be seen. -/
namespace Manuscript.Text

def hexDigits (n : Nat) : List Char := Nat.toDigits 16 n

def shown (c : Char) : List Char :=
  if c = '"' then ['\\', '"']
  else if c = '\\' then ['\\', '\\']
  else if c = '\n' then ['\\', 'n']
  else if c = '\r' then ['\\', 'r']
  else if c = '\t' then ['\\', 't']
  else if c.toNat = 0 then ['\\', '0']
  else if isPrintable c && !extendsGrapheme c then [c]
  else ['\\', 'u', '{'] ++ hexDigits c.toNat ++ ['}']

def quote (s : String) : String := String.ofList ('"' :: s.toList.flatMap shown ++ ['"'])

end Manuscript.Text
