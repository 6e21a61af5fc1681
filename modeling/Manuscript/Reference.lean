import Manuscript.Bibliography.Basic
import Manuscript.Contents
import Manuscript.Markup.Token

/-! Tokens after citations and references have been looked up. Nothing fails: what is not found is
kept as missing. -/
namespace Manuscript

inductive Span
  | text (text : String)
  | math (tex : String) (inline : Bool)
  | citation (number : Nat) (key : String) (anchor : String)
  | missingCitation (key : String)
  | reference (label : String) (anchor : String)
  | missingReference (target : String)
  deriving DecidableEq, Repr, Inhabited

inductive Marker.Kind
  | citation
  | reference
  | unresolved
  deriving DecidableEq, Repr

structure Marker where
  label : String
  link : Option String
  kind : Marker.Kind
  deriving DecidableEq, Repr

def Marker.toJson (m : Marker) : Json := .object
  [("label", .string m.label), ("href", Json.ofOption .string m.link),
    ("kind", .string (match m.kind with
      | .citation => "citation"
      | .reference => "cross-ref"
      | .unresolved => "unresolved"))]

namespace Span

/-- A found target is linked; a missing one is marked by a question mark and has no link. -/
def marker? : Span → Option Marker
  | text _ => none
  | math _ _ => none
  | citation _ key anchor => some ⟨"[" ++ key ++ "]", some ("#" ++ anchor), .citation⟩
  | reference label anchor => some ⟨"[" ++ label ++ "]", some ("#" ++ anchor), .reference⟩
  | missingCitation key => some ⟨"[?" ++ key ++ "]", none, .unresolved⟩
  | missingReference target => some ⟨"[?" ++ target ++ "]", none, .unresolved⟩

def isUnresolved : Span → Bool
  | missingCitation _ | missingReference _ => true
  | _ => false

def toJson : Span → Json
  | text t => .object [("type", .string "text"), ("text", .string t)]
  | math tex inline => .object
      [("type", .string "math"), ("tex", .string tex), ("inline", .bool inline)]
  | citation number key anchor => .object
      [("type", .string "resolved-citation"), ("number", .ofNat number), ("key", .string key),
        ("anchor", .string anchor)]
  | missingCitation key => .object
      [("type", .string "unresolved-citation"), ("key", .string key)]
  | reference label anchor => .object
      [("type", .string "resolved-cross-ref"), ("label", .string label),
        ("anchor", .string anchor)]
  | missingReference target => .object
      [("type", .string "unresolved-cross-ref"), ("target_id", .string target)]

end Span

structure Indices where
  contents : Contents
  bibliography : Bibliography
  deriving DecidableEq, Repr, Inhabited

namespace Indices

def build (headings : List Heading) (sources : List Source) : Indices :=
  ⟨⟨headings⟩, Bibliography.ofSources sources⟩

def resolve (i : Indices) : Markup.Token → Span
  | .text t => .text t
  | .math tex inline _ => .math tex inline
  | .citation key _ =>
    match i.bibliography.lookup? key with
    | some e => .citation e.number e.key e.anchor
    | none => .missingCitation key
  | .reference target _ =>
    match i.contents.lookup? target with
    | some h => .reference h.slug h.slug
    | none => .missingReference target
  | .unknown raw => .text raw

end Indices
end Manuscript
