import Manuscript.Proofs.Markup.Limit

/-! Citations of several keys. The argument is cut at its commas; if every piece holds a key between
blanks, each piece is a citation of its key, and otherwise the macro is one unknown token. -/
namespace Manuscript.Markup

open Manuscript.Text

variable {a : String} {h : Head}

def commaPieces (a : String) : List String := (a.toList.splitOn ',').map String.ofList

/-- A citation of each piece. The first piece stands behind the opener, each later one behind its comma
and the last one before the closer. -/
def citationOfEach (opener closer : String) (pieces : List String) : List Token :=
  pieces.mapIdx fun i p => .citation (strip p) ((if i = 0 then opener else ",") ++ p ++
    (if i + 1 = pieces.length then closer else ""))

def HoldKeys (pieces : List String) : Prop := ∀ p ∈ pieces, isIdentifier (strip p).toList = true

instance (pieces : List String) : Decidable (HoldKeys pieces) := List.decidableBAll _ _

theorem toList_commaPieces (a : String) : (commaPieces a).map String.toList =
    (commaParts a.toList).1 :: (commaParts a.toList).2 := by
  rw [commaParts_eq_splitOn, commaPieces, List.map_map]
  refine (List.map_congr_left fun p _ => ?_).trans (List.map_id _)
  exact String.toList_ofList

theorem holdKeys_iff (a : String) : HoldKeys (commaPieces a) ↔
    ((commaParts a.toList).1 :: (commaParts a.toList).2).all
      (fun p => isIdentifier (trim p)) = true := by
  rw [← toList_commaPieces, List.all_eq_true, List.forall_mem_map]
  simp only [HoldKeys, strip, String.toList_ofList]

theorem Role.tokens_keys (opener a closer : String) :
    Role.keys.tokens opener.toList a.toList closer.toList =
      if HoldKeys (commaPieces a) then citationOfEach opener closer (commaPieces a)
      else [.unknown (opener ++ a ++ closer)] := by
  have hraw : String.ofList (opener.toList ++ (a.toList ++ closer.toList)) =
      opener ++ a ++ closer := by
    rw [← String.toList_inj]
    simp
  have hpieces := toList_commaPieces a
  simp only [Role.tokens, hraw, ← holdKeys_iff]
  cases he : commaPieces a with
  | nil =>
    rw [he] at hpieces
    cases hpieces
  | cons part parts =>
    rw [he, List.map_cons] at hpieces
    obtain ⟨hpart, hparts⟩ := List.cons.inj hpieces
    rw [← hpart, ← hparts, citationRow_eq_mapIdx, citationOfEach]

def Head.listing : List Head :=
  [.bracket "cite".toList, .command "cite".toList, .command "citep".toList,
    .command "citet".toList]

theorem valid_listing : ∀ h ∈ Head.listing, h.Valid ∧ h ≠ .command "begin".toList ∧
    h.role = .keys := by decide

theorem parse_listing {opener closer : String} (hmem : h ∈ Head.listing)
    (harg : h.Argument a.toList) (hopener : h.opener = opener.toList)
    (hcloser : [h.closer] = closer.toList) :
    (HoldKeys (commaPieces a) →
        parse (opener ++ a ++ closer) = citationOfEach opener closer (commaPieces a)) ∧
      (¬ HoldKeys (commaPieces a) →
        parse (opener ++ a ++ closer) = [.unknown (opener ++ a ++ closer)]) := by
  obtain ⟨hh, hbegin, hrole⟩ := valid_listing h hmem
  have hwrite : h.write a = opener ++ a ++ closer := by
    rw [← String.toList_inj]
    simp [Head.write, hopener, hcloser]
  have hparse := parse_write_of_argument hh hbegin harg
  rw [hwrite, Head.tokens, hrole, hopener, hcloser, Role.tokens_keys] at hparse
  constructor
  · intro hkeys
    rw [hparse, if_pos hkeys]
  · intro hkeys
    rw [hparse, if_neg hkeys]

/-- A citation of several keys is all or nothing: a citation of each piece between commas if every piece
holds a key, and one unknown token if not. -/
theorem parse_key_list (a : String) (hsize : a.utf8ByteSize ≤ 255) (hline : '\n' ∉ a.toList) :
    ('[' ∉ a.toList → ']' ∉ a.toList →
        (HoldKeys (commaPieces a) →
          parse ("[cite:" ++ a ++ "]") = citationOfEach "[cite:" "]" (commaPieces a)) ∧
        (¬ HoldKeys (commaPieces a) →
          parse ("[cite:" ++ a ++ "]") = [.unknown ("[cite:" ++ a ++ "]")])) ∧
      (Nests 0 a.toList → ∀ name ∈ ["cite", "citep", "citet"],
        let opener := "\\" ++ name ++ "\x7b"
        (HoldKeys (commaPieces a) →
          parse (opener ++ a ++ "\x7d") = citationOfEach opener "\x7d" (commaPieces a)) ∧
        (¬ HoldKeys (commaPieces a) →
          parse (opener ++ a ++ "\x7d") = [.unknown (opener ++ a ++ "\x7d")])) := by
  have hshort : byteLength a.toList < argumentLimit := by
    rw [byteLength_toList, argumentLimit]
    omega
  constructor
  · intro hopen hclose
    have harg : BracketArgument a.toList := by
      refine ⟨hshort, fun c hc => ⟨?_, ?_, ?_⟩⟩
      · exact ne_of_mem_of_not_mem hc hline
      · exact ne_of_mem_of_not_mem hc hopen
      · exact ne_of_mem_of_not_mem hc hclose
    exact parse_listing (h := .bracket "cite".toList) (by decide) harg rfl rfl
  · intro hnests name hname opener
    have hlisting : ∀ name ∈ ["cite", "citep", "citet"],
        Head.command name.toList ∈ Head.listing := by decide
    exact parse_listing (hlisting name hname) ⟨hshort, hline, hnests⟩
      (by simp [Head.opener, opener]) rfl

theorem parse_key_list_blanks :
    parse "\\citep\x7b a,b ,c\x7d" =
        [.citation "a" "\\citep\x7b a", .citation "b" ",b ", .citation "c" ",c\x7d"] ∧
      parse "[cite:a,b c]" = [.unknown "[cite:a,b c]"] := by
  constructor
  · have hnests : Nests 0 " a,b ,c".toList := by simp [Nests]
    exact ((parse_key_list " a,b ,c" (by decide) (by decide)).2 hnests "citep" (by decide)).1
      (by decide)
  · exact ((parse_key_list "a,b c" (by decide) (by decide)).1 (by decide) (by decide)).2 (by decide)

end Manuscript.Markup
