import Manuscript.Json.Basic

/-! Tokens of section text. Each keeps the exact text it was read from. -/
namespace Manuscript.Markup

inductive Token
  | text (text : String)
  | math (tex : String) (inline : Bool) (raw : String)
  | citation (key : String) (raw : String)
  | reference (target : String) (raw : String)
  | unknown (raw : String)
  deriving DecidableEq, Repr, Inhabited

namespace Token

def raw : Token → String
  | text t => t
  | math _ _ r => r
  | citation _ r => r
  | reference _ r => r
  | unknown r => r

def toJson : Token → Json
  | text t => .object [("type", .string "text"), ("text", .string t)]
  | math tex inline r => .object
      [("type", .string "math"), ("tex", .string tex), ("inline", .bool inline),
        ("raw", .string r)]
  | citation key r => .object
      [("type", .string "citation-ref"), ("key", .string key), ("raw", .string r)]
  | reference target r => .object
      [("type", .string "cross-ref"), ("target_id", .string target), ("raw", .string r)]
  | unknown r => .object [("type", .string "unknown-macro"), ("raw", .string r)]

end Token

def unparse (tokens : List Token) : String := String.join (tokens.map Token.raw)

def source (tokens : List Token) : List Char := tokens.flatMap fun t => t.raw.toList

@[simp] theorem source_nil : source [] = [] := rfl

@[simp] theorem source_cons (t : Token) (ts : List Token) :
    source (t :: ts) = t.raw.toList ++ source ts := by simp [source]

end Manuscript.Markup
