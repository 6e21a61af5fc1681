import Manuscript.Json.Basic

/-! JSON text of values, on one line or indented by two spaces. -/
namespace Manuscript.Json

def hexDigit (n : Nat) : Char := if n % 16 < 10 then Char.ofNat (48 + n % 16) else Char.ofNat (87 + n % 16)

def escaped (c : Char) : List Char :=
  if c = '"' then ['\\', '"']
  else if c = '\\' then ['\\', '\\']
  else if c.toNat = 8 then ['\\', 'b']
  else if c.toNat = 9 then ['\\', 't']
  else if c.toNat = 10 then ['\\', 'n']
  else if c.toNat = 12 then ['\\', 'f']
  else if c.toNat = 13 then ['\\', 'r']
  else if c.toNat < 32 then ['\\', 'u', '0', '0', hexDigit (c.toNat / 16), hexDigit c.toNat]
  else [c]

def quoted (s : String) : String := String.ofList ('"' :: s.toList.flatMap escaped ++ ['"'])

inductive Layout
  | flat
  | indented (level : Nat)

def Layout.deeper : Layout → Layout
  | flat => flat
  | indented n => indented (n + 1)

def Layout.lineBreak : Layout → String
  | flat => ""
  | indented n => String.ofList ('\n' :: List.replicate (2 * n) ' ')

def Layout.colon : Layout → String
  | flat => ":"
  | indented _ => ": "

mutual

def render (layout : Layout) : Json → String
  | null => "null"
  | bool true => "true"
  | bool false => "false"
  | number n => n.text
  | string s => quoted s
  | array [] => "[]"
  | array (v :: vs) =>
    "[" ++ layout.deeper.lineBreak ++ render layout.deeper v ++ renderItems layout.deeper vs ++
      layout.lineBreak ++ "]"
  | object [] => "\x7b\x7d"
  | object (f :: fs) =>
    "\x7b" ++ layout.deeper.lineBreak ++ renderField layout.deeper f ++
      renderFields layout.deeper fs ++ layout.lineBreak ++ "\x7d"

def renderItems (layout : Layout) : List Json → String
  | [] => ""
  | v :: vs => "," ++ layout.lineBreak ++ render layout v ++ renderItems layout vs

def renderField (layout : Layout) : String × Json → String
  | (key, v) => quoted key ++ layout.colon ++ render layout v

def renderFields (layout : Layout) : List (String × Json) → String
  | [] => ""
  | f :: fs => "," ++ layout.lineBreak ++ renderField layout f ++ renderFields layout fs

end

def compact (v : Json) : String := render .flat v

def pretty (v : Json) : String := render (.indented 0) v

end Manuscript.Json
