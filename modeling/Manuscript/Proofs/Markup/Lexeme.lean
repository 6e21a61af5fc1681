import Mathlib.Data.List.SplitBy
import Manuscript.Proofs.Markup.Grammar

/-! Lexemes. Each token is read again from its own raw text, the rest of the text cut off, and so is
each citation of several keys from the raw texts of its tokens together. -/
namespace Manuscript.Markup

open Manuscript.Text

def Token.opensCitation : Token → Bool
  | .citation _ raw => raw.toList.head? == some '[' || raw.toList.head? == some '\\'
  | _ => false

def Token.continuesCitation : Token → Bool
  | .citation _ raw => raw.toList.head? == some ','
  | _ => false

def lexemes (tokens : List Token) : List (List Token) :=
  tokens.splitBy fun _ next => next.continuesCitation

/-- One token, or a citation of several keys. -/
inductive IsLexeme : List Token → Prop
  | single {t : Token} (ht : t.continuesCitation = false) : IsLexeme [t]
  | row {lead next : Token} {more : List Token} (hlead : lead.opensCitation = true)
      (hmore : ∀ t ∈ next :: more, t.continuesCitation = true) : IsLexeme (lead :: next :: more)

def Rereads (tokens : List Token) : Prop := lex (source tokens) = tokens

variable {s run rest tex opener a : List Char} {tokens more : List Token} {t lead : Token}
  {f : Fence} {o : Opening}

/-! Shapes -/

theorem continues_of_opens (h : lead.opensCitation = true) : lead.continuesCitation = false := by
  cases lead with
  | citation key raw =>
    simp only [Token.opensCitation, Bool.or_eq_true, beq_iff_eq] at h
    rcases h with h | h <;> simp [Token.continuesCitation, h]
  | _ => rfl

theorem IsLexeme.head (h : IsLexeme tokens) :
    ∃ t more, tokens = t :: more ∧ t.continuesCitation = false := by
  cases h with
  | single ht => exact ⟨_, _, rfl, ht⟩
  | row hlead _ => exact ⟨_, _, rfl, continues_of_opens hlead⟩

theorem isChain_of_continues (h : ∀ t ∈ more, t.continuesCitation = true) (lead : Token) :
    (lead :: more).IsChain fun _ next => next.continuesCitation = true := by
  induction more generalizing lead with
  | nil => exact List.isChain_singleton lead
  | cons next more ih =>
    obtain ⟨hnext, hmore⟩ := List.forall_mem_cons.mp h
    exact List.isChain_cons_cons.mpr ⟨hnext, ih hmore next⟩

theorem IsLexeme.isChain (h : IsLexeme tokens) :
    tokens.IsChain fun _ next => next.continuesCitation = true := by
  cases h with
  | single => exact List.isChain_singleton _
  | row _ hmore => exact isChain_of_continues hmore _

theorem continues_of_mem_citationRow {lead closer part : List Char} {parts : List (List Char)}
    (hlead : lead.head? = some ',') (ht : t ∈ citationRow lead closer part parts) :
    t.continuesCitation = true := by
  induction parts generalizing lead part with
  | nil =>
    rw [List.mem_singleton.mp ht]
    simp [Token.continuesCitation, hlead]
  | cons next parts ih =>
    rcases List.mem_cons.mp ht with rfl | ht
    · simp [Token.continuesCitation, hlead]
    · exact ih rfl ht

theorem opens_citation (hopener : opener.head? = some '[' ∨ opener.head? = some '\\')
    (key : String) (s : List Char) :
    (Token.citation key (String.ofList (opener ++ s))).opensCitation = true := by
  rcases hopener with h | h <;> simp [Token.opensCitation, h]

theorem isLexeme_citationRow (hopener : opener.head? = some '[' ∨ opener.head? = some '\\')
    (closer part : List Char) (parts : List (List Char)) :
    IsLexeme (citationRow opener closer part parts) := by
  cases parts with
  | nil => exact .single (continues_of_opens (opens_citation hopener _ _))
  | cons next parts =>
    have hnext : ∀ t ∈ citationRow [','] closer next parts, t.continuesCitation = true :=
      fun t ht => continues_of_mem_citationRow rfl ht
    have hlead := opens_citation hopener (String.ofList (trim part)) part
    rw [citationRow]
    cases hrow : citationRow [','] closer next parts with
    | nil => exact .single (continues_of_opens hlead)
    | cons second more => exact .row hlead (hrow ▸ hnext)

theorem Role.isLexeme_tokens (role : Role)
    (hopener : opener.head? = some '[' ∨ opener.head? = some '\\') (a closer : List Char) :
    IsLexeme (role.tokens opener a closer) := by
  cases role with
  | key =>
    simp only [Role.tokens]
    split
    · exact .single (continues_of_opens (opens_citation hopener _ _))
    · exact .single rfl
  | keys =>
    simp only [Role.tokens]
    split
    · exact isLexeme_citationRow hopener _ _ _
    · exact .single rfl
  | target =>
    simp only [Role.tokens]
    split <;> exact .single rfl
  | unread => exact .single rfl

theorem Head.head?_opener (h : Head) : h.opener.head? = some '[' ∨ h.opener.head? = some '\\' := by
  cases h with
  | atSign | bracket name => exact .inl rfl
  | command name => exact .inr rfl

theorem Begins.isLexeme (hb : Begins s (.macros tokens rest)) : IsLexeme tokens := by
  cases hb with
  | backslash | symbol | dollar | unclosed => exact .single rfl
  | inline =>
    refine .single ?_
    unfold dollarToken
    split <;> rfl
  | closed => exact Role.isLexeme_tokens _ (Head.head?_opener _) _ _

theorem continues_close (f : Fence) (opener s : List Char)
    (found : Option (List Char × List Char)) :
    (f.close opener s found).1.continuesCitation = false := by
  cases found with
  | none => rfl
  | some found =>
    simp only [Fence.close]
    split <;> rfl

/-! Reading again -/

theorem source_lex (s : List Char) : source (lex s) = s := by
  rw [← scan_eq_lex [] s (List.forall_mem_nil _), source_scan]

theorem Begins.rereads_macros (hb : Begins s (.macros tokens rest)) : Rereads tokens := by
  have hcut := lex_of_begins_macros (hb.withRest (u := []) rfl)
  simpa [Rereads, lex_nil, Opening.taken] using hcut

theorem Begins.rereads_fence (hb : Begins s (.fence f opener rest)) :
    Rereads [(f.close opener rest (cut f.closer rest)).1] := by
  cases hclose : cut f.closer rest with
  | none =>
    -- a closer that is absent from the rest is absent from the rest cut off
    have hnil : cut f.closer [] = none := by
      have := cut_drop_eq_none hclose rest.length
      rwa [List.drop_length] at this
    have hcut := lex_of_begins_fence (hb.withRest (u := []) rfl)
    rw [hnil] at hcut
    simpa [Rereads, Fence.close, Token.raw, Opening.taken, lex_nil] using hcut
  | some found =>
    obtain ⟨tex, after⟩ := found
    have hrest : rest = (tex ++ f.closer) ++ after := by
      rw [eq_of_cut hclose, List.append_assoc]
    have hcut := lex_of_begins_fence (hb.withRest hrest)
    have hclose' : cut f.closer (tex ++ f.closer) = some (tex, []) := cut_append_of_cut hclose
    rw [hclose'] at hcut
    simp only [Rereads, Fence.close] at hcut ⊢
    split
    · rename_i hblank
      simpa [Opening.taken, hblank, lex_nil, Token.raw] using hcut
    · rename_i hblank
      simpa [Opening.taken, hblank, lex_nil, Token.raw] using hcut

theorem Begins.rereads_prose (hb : Begins s (.prose run rest)) {t : String} {more : List Token}
    (hrest : lex rest = .text t :: more) (ht : Rereads [.text t]) :
    Rereads [.text (String.ofList run ++ t)] := by
  have hsource : rest = t.toList ++ source more := by
    rw [← source_lex rest, hrest]
    rfl
  have hcut := lex_of_begins_prose (hb.withRest hsource)
  have hread : lex t.toList = [.text t] := by simpa [Rereads, Token.raw] using ht
  rw [hread] at hcut
  simpa [Rereads, Token.raw, Opening.taken, joinText] using hcut

theorem Begins.rereads_run (hb : Begins s (.prose run rest)) :
    Rereads [.text (String.ofList run)] := by
  have hcut := lex_of_begins_prose (hb.withRest (u := []) rfl)
  simpa [Rereads, Token.raw, Opening.taken, lex_nil, joinText] using hcut

/-! The lexemes of a text -/

theorem Begins.exists_lexemes_joinText (hb : Begins s (.prose run rest))
    {groups : List (List Token)} (hlex : lex rest = groups.flatten)
    (hgroups : ∀ g ∈ groups, IsLexeme g ∧ Rereads g) :
    ∃ joined : List (List Token), joinText run groups.flatten = joined.flatten ∧
      ∀ g ∈ joined, IsLexeme g ∧ Rereads g := by
  have halone : IsLexeme [.text (String.ofList run)] ∧ Rereads [.text (String.ofList run)] :=
    ⟨.single rfl, hb.rereads_run⟩
  cases groups with
  | nil => exact ⟨[[.text (String.ofList run)]], rfl, List.forall_mem_singleton.mpr halone⟩
  | cons g groups =>
    obtain ⟨hg, hgroups'⟩ := List.forall_mem_cons.mp hgroups
    obtain ⟨t, more, rfl, ht⟩ := hg.1.head
    -- prose takes up the prose behind it, anything else begins anew
    by_cases htext : t.isText = true
    · cases t with
      | text t =>
        cases hg.1 with
        | row hlead => cases hlead
        | single =>
          refine ⟨[.text (String.ofList run ++ t)] :: groups, rfl, ?_⟩
          exact List.forall_mem_cons.mpr ⟨⟨.single rfl, hb.rereads_prose hlex hg.2⟩, hgroups'⟩
      | _ => cases htext
    · refine ⟨[.text (String.ofList run)] :: (t :: more) :: groups, ?_, ?_⟩
      · rw [List.flatten_cons, List.cons_append, joinText_cons (Bool.eq_false_iff.mpr htext)]
        rfl
      · exact List.forall_mem_cons.mpr ⟨halone, hgroups⟩

theorem exists_lexemes (s : List Char) :
    ∃ groups : List (List Token), lex s = groups.flatten ∧
      ∀ g ∈ groups, IsLexeme g ∧ Rereads g := by
  fun_induction lex s with
  | case1 => exact ⟨[], rfl, List.forall_mem_nil _⟩
  | case2 c s run rest ho ih =>
    have hb : Begins (c :: s) (.prose run rest) := ho ▸ begins_opening c s
    obtain ⟨groups, hlex, hgroups⟩ := ih
    rw [hlex]
    exact hb.exists_lexemes_joinText hlex hgroups
  | case3 c s tokens rest ho ih =>
    have hb : Begins (c :: s) (.macros tokens rest) := ho ▸ begins_opening c s
    obtain ⟨groups, hlex, hgroups⟩ := ih
    refine ⟨tokens :: groups, by rw [hlex]; rfl, ?_⟩
    exact List.forall_mem_cons.mpr ⟨⟨hb.isLexeme, hb.rereads_macros⟩, hgroups⟩
  | case4 c s f opener rest ho closed ih =>
    have hb : Begins (c :: s) (.fence f opener rest) := ho ▸ begins_opening c s
    obtain ⟨groups, hlex, hgroups⟩ := ih
    refine ⟨[closed.1] :: groups, by rw [hlex]; rfl, ?_⟩
    have hshape : IsLexeme [closed.1] := .single (continues_close f opener rest _)
    exact List.forall_mem_cons.mpr ⟨⟨hshape, hb.rereads_fence⟩, hgroups⟩

theorem lexemes_flatten {groups : List (List Token)} (h : ∀ g ∈ groups, IsLexeme g) :
    lexemes groups.flatten = groups := by
  apply List.splitBy_flatten
  · intro hnil
    obtain ⟨t, more, he, -⟩ := (h [] hnil).head
    cases he
  · intro g hg
    exact (h g hg).isChain
  · induction groups with
    | nil => exact List.isChain_nil
    | cons g groups ih =>
      obtain ⟨hg, hgroups⟩ := List.forall_mem_cons.mp h
      refine List.isChain_cons.mpr ⟨fun g' hg' => ?_, ih hgroups⟩
      obtain ⟨t, more, rfl, -⟩ := hg.head
      obtain ⟨next, more', rfl, hnext⟩ := (hgroups g' (List.mem_of_mem_head? hg')).head
      exact ⟨List.cons_ne_nil _ _, List.cons_ne_nil _ _, hnext⟩

/-- The tokens of a text fall into single tokens, each read again from its own raw text, and citations
of several keys, each read again from the raw texts of its tokens. -/
theorem parse_lexemes (text : String) :
    (lexemes (parse text)).flatten = parse text ∧
      ∀ group ∈ lexemes (parse text),
        (∃ t, group = [t] ∧ t.continuesCitation = false ∧ parse t.raw = [t]) ∨
          ∃ lead next more, group = lead :: next :: more ∧ lead.opensCitation = true ∧
            (∀ t ∈ next :: more, t.continuesCitation = true) ∧
              parse (unparse group) = group := by
  obtain ⟨groups, hlex, hgroups⟩ := exists_lexemes text.toList
  have hparse : parse text = groups.flatten := by
    rw [parse, scan_eq_lex [] _ (List.forall_mem_nil _), hlex]
  have hlexemes : lexemes (parse text) = groups := by
    rw [hparse]
    exact lexemes_flatten fun g hg => (hgroups g hg).1
  refine ⟨by rw [hlexemes, hparse], ?_⟩
  intro group hgroup
  rw [hlexemes] at hgroup
  obtain ⟨hshape, hread⟩ := hgroups group hgroup
  have hagain : parse (unparse group) = group := by
    rw [parse, scan_eq_lex [] _ (List.forall_mem_nil _), toList_unparse]
    exact hread
  cases hshape with
  | single ht =>
    refine .inl ⟨_, rfl, ht, ?_⟩
    simpa [unparse] using hagain
  | row hlead hmore => exact .inr ⟨_, _, _, rfl, hlead, hmore, hagain⟩

theorem parse_lexemes_two_keys :
    [.citation "a" "[cite:a", .citation "b" ", b]"] ∈ lexemes (parse "See [cite:a, b]$x$") ∧
      parse "[cite:a, b]" = [.citation "a" "[cite:a", .citation "b" ", b]"] := by
  have hrow : [.citation "a" "[cite:a", .citation "b" ", b]"] ∈
      lexemes (parse "See [cite:a, b]$x$") := by decide +kernel
  refine ⟨hrow, ?_⟩
  rcases (parse_lexemes "See [cite:a, b]$x$").2 _ hrow with ⟨t, ht, -⟩ | ⟨_, _, _, -, -, -, hread⟩
  · cases ht
  · exact hread

end Manuscript.Markup
