import Mathlib.Data.List.Chain
import Manuscript.Proofs.Markup.Argument
import Manuscript.Proofs.Markup.Prose
import Manuscript.Proofs.Text.Search

/-! The canonical macro language: prose, citation groups, references and math, each printed in a form
that its neighbours cannot change. Parsing a printed row of items gives the tokens of the items. -/
namespace Manuscript.Markup

open Manuscript.Text

inductive Spelling
  | bracket
  | command
  deriving DecidableEq, Repr

namespace Spelling

def opener (name : String) : Spelling → String
  | bracket => "[" ++ name ++ ":"
  | command => "\\" ++ name ++ "\x7b"

def closer : Spelling → String
  | bracket => "]"
  | command => "\x7d"

end Spelling

def Fence.opener : Fence → String
  | dollars => "$$"
  | paren => "\\("
  | bracket => "\\["
  | environment e => "\\begin\x7b" ++ e.name ++ "\x7d"

/-- Math that its closer ends at the first opportunity. -/
def Fence.Admits : Fence → List Char → Prop
  | dollars, tex => '$' ∉ tex
  | f, tex => ¬ f.closer <:+: tex

instance : (f : Fence) → (tex : List Char) → Decidable (f.Admits tex)
  | .dollars, tex => inferInstanceAs (Decidable ('$' ∉ tex))
  | .paren, tex => inferInstanceAs (Decidable ¬ Fence.paren.closer <:+: tex)
  | .bracket, tex => inferInstanceAs (Decidable ¬ Fence.bracket.closer <:+: tex)
  | .environment e, tex => inferInstanceAs (Decidable ¬ (Fence.environment e).closer <:+: tex)

inductive Item
  | text (text : String)
  | citation (spelling : Spelling) (keys : List String)
  | reference (spelling : Spelling) (target : String)
  | dollar (tex : String)
  | fenced (f : Fence) (tex : String)
  deriving DecidableEq, Repr

namespace Item

def isText : Item → Bool
  | text _ => true
  | _ => false

def print : Item → String
  | text t => t
  | citation spelling keys => spelling.opener "cite" ++ ",".intercalate keys ++ spelling.closer
  | reference spelling target => spelling.opener "ref" ++ target ++ spelling.closer
  | dollar tex => "$" ++ tex ++ "$"
  | fenced f tex => f.opener ++ tex ++ String.ofList f.closer

def tokens : Item → List Token
  | text t => [.text t]
  | citation spelling keys => keys.mapIdx fun i key =>
      .citation key ((if i = 0 then spelling.opener "cite" else ",") ++ key ++
        (if i + 1 = keys.length then spelling.closer else ""))
  | reference spelling target => [.reference target (spelling.opener "ref" ++ target ++ spelling.closer)]
  | dollar tex => [.math tex true ("$" ++ tex ++ "$")]
  | fenced f tex =>
      let raw := f.opener ++ tex ++ String.ofList f.closer
      [.math (if f.keepsDelimiters then raw else tex) f.isInline raw]

def Valid : Item → Prop
  | text t => t ≠ "" ∧ ∀ c ∈ t.toList, c ≠ '\\' ∧ c ≠ '$' ∧ c ≠ '['
  | citation _ keys => keys ≠ [] ∧ (∀ key ∈ keys, isIdentifier key.toList = true) ∧
      (",".intercalate keys).utf8ByteSize ≤ 255
  | reference _ target => isIdentifier target.toList = true ∧ target.utf8ByteSize ≤ 255
  | dollar tex => allBlank tex.toList = false ∧ ∀ c ∈ tex.toList, c ≠ '$' ∧ c ≠ '\\' ∧ c ≠ '\n'
  | fenced f tex => allBlank tex.toList = false ∧ f.Admits tex.toList

instance : (i : Item) → Decidable i.Valid
  | text t =>
    haveI : Decidable (∀ c ∈ t.toList, c ≠ '\\' ∧ c ≠ '$' ∧ c ≠ '[') := List.decidableBAll _ _
    inferInstanceAs (Decidable (t ≠ "" ∧ ∀ c ∈ t.toList, c ≠ '\\' ∧ c ≠ '$' ∧ c ≠ '['))
  | citation _ keys => inferInstanceAs (Decidable (keys ≠ [] ∧
      (∀ key ∈ keys, isIdentifier key.toList = true) ∧ (",".intercalate keys).utf8ByteSize ≤ 255))
  | reference _ target => inferInstanceAs
      (Decidable (isIdentifier target.toList = true ∧ target.utf8ByteSize ≤ 255))
  | dollar tex =>
    haveI : Decidable (∀ c ∈ tex.toList, c ≠ '$' ∧ c ≠ '\\' ∧ c ≠ '\n') := List.decidableBAll _ _
    inferInstanceAs (Decidable (allBlank tex.toList = false ∧
      ∀ c ∈ tex.toList, c ≠ '$' ∧ c ≠ '\\' ∧ c ≠ '\n'))
  | fenced f tex => inferInstanceAs
      (Decidable (allBlank tex.toList = false ∧ f.Admits tex.toList))

end Item

/-- Items that are each valid, no two texts side by side. -/
def Canonical (items : List Item) : Prop :=
  (∀ i ∈ items, i.Valid) ∧ items.IsChain fun i j => i.isText = false ∨ j.isText = false

instance (items : List Item) : Decidable (Canonical items) := inferInstanceAs (Decidable (_ ∧ _))

def Opens (s : List Char) (o : Opening) : Prop := ∃ c t, s = c :: t ∧ opening c t = o

variable {s a tex opener rest : List Char} {toks : List Token} {key : List Char}
  {keys : List (List Char)}

theorem lex_of_opens_macros (h : Opens s (.macros toks rest)) : lex s = toks ++ lex rest := by
  obtain ⟨c, t, rfl, ho⟩ := h
  exact lex_of_macros ho

theorem lex_of_opens_fence {f : Fence} (h : Opens s (.fence f opener (tex ++ (f.closer ++ rest))))
    (hcut : cut f.closer (tex ++ (f.closer ++ rest)) = some (tex, rest))
    (hblank : allBlank tex = false) :
    lex s = .math (String.ofList (if f.keepsDelimiters then opener ++ (tex ++ f.closer) else tex))
      f.isInline (String.ofList (opener ++ (tex ++ f.closer))) :: lex rest := by
  obtain ⟨c, t, rfl, ho⟩ := h
  rw [lex_of_fence ho, hcut]
  simp [Fence.close, hblank]

theorem opens_bracketMacro (name : List Char) (hname : name ≠ [])
    (hletters : ∀ c ∈ name, isLetter c = true) (hshort : name.length ≤ argumentLimit) :
    Opens ('[' :: (name ++ ':' :: s)) (bracketMacro name s) := by
  refine ⟨'[', _, rfl, ?_⟩
  have htake : (name ++ ':' :: s).takeWhile isLetter = name := by
    rw [List.takeWhile_append_of_pos hletters, List.takeWhile_cons_of_neg (by decide),
      List.append_nil]
  have hdrop : (name ++ ':' :: s).dropWhile isLetter = ':' :: s := by
    rw [List.dropWhile_append_of_pos hletters, List.dropWhile_cons_of_neg (by decide)]
  change bracket (name ++ ':' :: s) = _
  unfold bracket
  split
  · rename_i r he
    cases name with
    | nil => exact absurd rfl hname
    | cons c name =>
      have hc := hletters c List.mem_cons_self
      rw [(List.cons.inj he).1] at hc
      cases hc
  · simp [htake, hdrop, hname, hshort]

theorem opening_letters (name : List Char) (hname : name ≠ [])
    (hletters : ∀ c ∈ name, isLetter c = true) (s : List Char) :
    opening '\\' (name ++ s) = named (name ++ s) := by
  cases name with
  | nil => exact absurd rfl hname
  | cons c name =>
    have hc := hletters c List.mem_cons_self
    have hne : ∀ d, isLetter d = false → c ≠ d := by
      rintro d hd rfl
      rw [hc] at hd
      cases hd
    change backslash (c :: (name ++ s)) = _
    rw [backslash, if_neg (hne '$' rfl), if_neg (hne '(' rfl), if_neg (hne '[' rfl), if_pos hc]
    rfl

theorem opens_command (name : List Char) (hname : name ≠ [])
    (hletters : ∀ c ∈ name, isLetter c = true)
    (hgroup : braced argumentLimit 0 s = some (a, rest)) :
    Opens ('\\' :: (name ++ '{' :: s)) (command name a rest) := by
  refine ⟨'\\', _, rfl, ?_⟩
  have htake : (name ++ '{' :: s).takeWhile isLetter = name := by
    rw [List.takeWhile_append_of_pos hletters, List.takeWhile_cons_of_neg (by decide),
      List.append_nil]
  have hdrop : (name ++ '{' :: s).dropWhile isLetter = '{' :: s := by
    rw [List.dropWhile_append_of_pos hletters, List.dropWhile_cons_of_neg (by decide)]
  rw [opening_letters name hname hletters]
  simp only [named, htake, hdrop, hgroup]

structure Admissible (a : List Char) : Prop where
  short : byteLength a < argumentLimit
  plain : ∀ c ∈ a, c ≠ '\n' ∧ c ≠ '[' ∧ c ≠ ']' ∧ c ≠ '{' ∧ c ≠ '}'

theorem Admissible.bracketed (ha : Admissible a) :
    bracketed argumentLimit (a ++ ']' :: rest) = some (a, rest) :=
  bracketed_append ha.short fun c hc =>
    ⟨(ha.plain c hc).1, (ha.plain c hc).2.1, (ha.plain c hc).2.2.1⟩

theorem Admissible.braced (ha : Admissible a) :
    braced argumentLimit 0 (a ++ '}' :: rest) = some (a, rest) :=
  braced_append ha.short fun c hc => ⟨(ha.plain c hc).1, (ha.plain c hc).2.2.2⟩

theorem opens_cite (spelling : Spelling) (rest : List Char) (ha : Admissible a) :
    Opens ((spelling.opener "cite").toList ++ (a ++ (spelling.closer.toList ++ rest)))
      (citations (spelling.opener "cite").toList a spelling.closer.toList rest) := by
  cases spelling with
  | bracket =>
    have ho : bracketMacro "cite".toList (a ++ ']' :: rest) =
        citations "[cite:".toList a [']'] rest := by
      rw [bracketMacro, ha.bracketed]
      rfl
    exact ho ▸ opens_bracketMacro "cite".toList (by decide) (List.all_eq_true.mp rfl)
      (by decide)
  | command => exact opens_command "cite".toList (by decide) (List.all_eq_true.mp rfl) ha.braced

theorem opens_ref (spelling : Spelling) (rest : List Char) (ha : Admissible a) :
    Opens ((spelling.opener "ref").toList ++ (a ++ (spelling.closer.toList ++ rest)))
      (reference (spelling.opener "ref").toList a spelling.closer.toList rest) := by
  cases spelling with
  | bracket =>
    have ho : bracketMacro "ref".toList (a ++ ']' :: rest) =
        reference "[ref:".toList a [']'] rest := by
      rw [bracketMacro, ha.bracketed]
      rfl
    exact ho ▸ opens_bracketMacro "ref".toList (by decide) (List.all_eq_true.mp rfl)
      (by decide)
  | command => exact opens_command "ref".toList (by decide) (List.all_eq_true.mp rfl) ha.braced

theorem admissible_joined (hkey : isIdentifier key = true)
    (hkeys : ∀ k ∈ keys, isIdentifier k = true)
    (hshort : byteLength (joined key keys) < argumentLimit) : Admissible (joined key keys) := by
  refine ⟨hshort, ?_⟩
  intro c hc
  refine ⟨?_, ?_, ?_, ?_, ?_⟩ <;>
    exact ne_of_mem_joined hkey hkeys (by decide) (by decide) hc

theorem citations_joined (opener closer rest : List Char) (hkey : isIdentifier key = true)
    (hkeys : ∀ k ∈ keys, isIdentifier k = true) :
    citations opener (joined key keys) closer rest =
      .macros (citationRow opener closer key keys) rest := by
  have hcomma : ∀ {k}, isIdentifier k = true → ',' ∉ k := fun hk hc =>
    ne_of_isIdentifierChar (isIdentifierChar_of_mem hk hc) (by decide) rfl
  have hparts : commaParts (joined key keys) = (key, keys) :=
    commaParts_joined (hcomma hkey) fun k hk => hcomma (hkeys k hk)
  have hall : (key :: keys).all (fun p => isIdentifier (trim p)) = true := by
    rw [List.all_eq_true]
    intro k hk
    have hid : isIdentifier k = true := by
      rcases List.mem_cons.mp hk with rfl | hk
      · exact hkey
      · exact hkeys k hk
    rw [trim_eq_self_of_isIdentifier hid, hid]
  rw [citations, hparts]
  exact if_pos hall

theorem citationRow_eq_mapIdx (lead closer part : String) (parts : List String) :
    citationRow lead.toList closer.toList part.toList (parts.map String.toList) =
      (part :: parts).mapIdx fun i p => .citation (strip p) ((if i = 0 then lead else ",") ++ p ++
        (if i + 1 = (part :: parts).length then closer else "")) := by
  induction parts generalizing lead part with
  | nil => simp [citationRow, strip, String.append_assoc]
  | cons next parts ih =>
    rw [List.map_cons, citationRow, List.mapIdx_cons]
    refine congrArg₂ _ (by simp [strip]) ((ih "," next).trans ?_)
    simp

theorem citationRow_of_isIdentifier (lead closer : String) {key : String} {keys : List String}
    (hkey : isIdentifier key.toList = true) (hkeys : ∀ k ∈ keys, isIdentifier k.toList = true) :
    citationRow lead.toList closer.toList key.toList (keys.map String.toList) =
      (key :: keys).mapIdx fun i k => .citation k ((if i = 0 then lead else ",") ++ k ++
        (if i + 1 = (key :: keys).length then closer else "")) := by
  rw [citationRow_eq_mapIdx, List.mapIdx_eq_mapIdx_iff]
  intro i hi
  have hall : ∀ k ∈ key :: keys, isIdentifier k.toList = true :=
    List.forall_mem_cons.mpr ⟨hkey, hkeys⟩
  have hid := hall _ (List.getElem_mem hi)
  rw [strip, trim_eq_self_of_isIdentifier hid, String.ofList_toList]

/-! Math -/

theorem cut_closer {f : Fence} (h : f.Admits tex) :
    cut f.closer (tex ++ (f.closer ++ rest)) = some (tex, rest) := by
  cases f with
  | dollars => exact cut_append_of_head_notMem h
  | paren => exact cut_append_of_not_infix (by decide) h
  | bracket => exact cut_append_of_not_infix (by decide) h
  | environment e =>
    have hhead : '\\' ∉ "end\x7b".toList ++ e.name.toList ++ ['}'] := by cases e <;> decide
    exact cut_append_of_not_infix hhead h

theorem opens_fence (f : Fence) : Opens (f.opener.toList ++ s) (.fence f f.opener.toList s) := by
  cases f with
  | dollars => exact ⟨'$', _, rfl, rfl⟩
  | paren => exact ⟨'\\', _, rfl, rfl⟩
  | bracket => exact ⟨'\\', _, rfl, rfl⟩
  | environment e => cases e <;> exact ⟨'\\', _, rfl, rfl⟩

theorem opens_dollar (hblank : allBlank tex = false)
    (htex : ∀ c ∈ tex, c ≠ '$' ∧ c ≠ '\\' ∧ c ≠ '\n') :
    Opens ('$' :: (tex ++ '$' :: rest)) (.macros
      [.math (String.ofList tex) true (String.ofList ('$' :: (tex ++ ['$'])))] rest) := by
  refine ⟨'$', _, rfl, ?_⟩
  have hclose : untilDollar (tex ++ '$' :: rest) = some (tex, rest) :=
    untilDollar_append fun c hc => ⟨(htex c hc).2.1, (htex c hc).2.2, (htex c hc).1⟩
  change dollar (tex ++ '$' :: rest) = _
  unfold dollar
  split
  · rename_i r he
    cases tex with
    | nil => cases hblank
    | cons c tex => exact absurd (List.cons.inj he).1 (htex c List.mem_cons_self).1
  · rw [hclose]
    simp [hblank]

/-! Items -/

namespace Item

variable {i : Item}

theorem lex_print (hi : i.Valid) (htext : i.isText = false) (rest : List Char) :
    lex (i.print.toList ++ rest) = i.tokens ++ lex rest := by
  cases i with
  | text t => cases htext
  | citation spelling keys =>
    obtain ⟨hne, hkeys, hsize⟩ := hi
    cases keys with
    | nil => exact absurd rfl hne
    | cons key keys =>
      obtain ⟨hkey, hkeys⟩ := List.forall_mem_cons.mp hkeys
      have hkeys' : ∀ k ∈ keys.map String.toList, isIdentifier k = true := by
        intro k hk
        obtain ⟨k', hk', rfl⟩ := List.mem_map.mp hk
        exact hkeys k' hk'
      have hjoin : (",".intercalate (key :: keys)).toList =
          joined key.toList (keys.map String.toList) := by
        rw [String.toList_intercalate, List.map_cons]
        exact joined_eq_intercalate _ _
      have hshort : byteLength (joined key.toList (keys.map String.toList)) < argumentLimit := by
        rw [← hjoin, byteLength_toList, argumentLimit]
        omega
      have ho := opens_cite spelling rest (admissible_joined hkey hkeys' hshort)
      rw [citations_joined _ _ _ hkey hkeys', citationRow_of_isIdentifier _ _ hkey hkeys] at ho
      have hprint : (Item.citation spelling (key :: keys)).print.toList ++ rest =
          (spelling.opener "cite").toList ++ (joined key.toList (keys.map String.toList) ++
            (spelling.closer.toList ++ rest)) := by
        simp [print, hjoin]
      rw [hprint, lex_of_opens_macros ho]
      rfl
  | reference spelling target =>
    obtain ⟨htarget, hsize⟩ := hi
    have hshort : byteLength (joined target.toList []) < argumentLimit := by
      rw [joined, List.flatMap_nil, List.append_nil, byteLength_toList, argumentLimit]
      omega
    have ha := admissible_joined htarget (by simp) hshort
    rw [joined, List.flatMap_nil, List.append_nil] at ha
    have ho := opens_ref spelling rest ha
    rw [Markup.reference, trim_eq_self_of_isIdentifier htarget, if_pos htarget] at ho
    have hprint : (Item.reference spelling target).print.toList ++ rest =
        (spelling.opener "ref").toList ++ (target.toList ++ (spelling.closer.toList ++ rest)) := by
      simp [print]
    rw [hprint, lex_of_opens_macros ho]
    simp [tokens, String.append_assoc]
  | dollar tex =>
    have hprint : (Item.dollar tex).print.toList ++ rest =
        '$' :: (tex.toList ++ '$' :: rest) := by simp [print]
    rw [hprint, lex_of_opens_macros (opens_dollar hi.1 hi.2)]
    simp [tokens, String.append_assoc]
  | fenced f tex =>
    have hprint : (Item.fenced f tex).print.toList ++ rest =
        f.opener.toList ++ (tex.toList ++ (f.closer ++ rest)) := by simp [print]
    rw [hprint, lex_of_opens_fence (opens_fence f) (cut_closer hi.2) hi.1]
    cases hkeeps : f.keepsDelimiters <;> simp [tokens, hkeeps, String.append_assoc]

theorem head_tokens (hi : i.Valid) (htext : i.isText = false) :
    ∃ t ts, i.tokens = t :: ts ∧ t.isText = false := by
  cases i with
  | text t => cases htext
  | citation spelling keys =>
    cases keys with
    | nil => exact absurd rfl hi.1
    | cons key keys => exact ⟨_, _, List.mapIdx_cons, rfl⟩
  | reference spelling target => exact ⟨_, _, rfl, rfl⟩
  | dollar tex => exact ⟨_, _, rfl, rfl⟩
  | fenced f tex => exact ⟨_, _, rfl, rfl⟩

end Item

theorem lex_flatMap_print {items : List Item} (h : Canonical items) :
    lex (items.flatMap fun i => i.print.toList) = items.flatMap Item.tokens := by
  obtain ⟨hvalid, hchain⟩ := h
  induction items with
  | nil => rw [List.flatMap_nil, lex, List.flatMap_nil]
  | cons i items ih =>
    obtain ⟨hi, hitems⟩ := List.forall_mem_cons.mp hvalid
    obtain ⟨hnext, hchain⟩ := List.isChain_cons.mp hchain
    have hrest := ih hitems hchain
    rw [List.flatMap_cons, List.flatMap_cons]
    cases htext : i.isText with
    | false => rw [Item.lex_print hi htext, hrest]
    | true =>
      cases i with
      | text t =>
        have hne : t.toList ≠ [] := by simpa using hi.1
        have hplain : ∀ c ∈ t.toList, isOrdinary c = true :=
          fun c hc => isOrdinary_iff.mpr (hi.2 c hc)
        have hprint : (Item.text t).print.toList = t.toList := rfl
        rw [hprint, lex_prose hne hplain, hrest]
        cases items with
        | nil => simp [joinText, Item.tokens]
        | cons j items =>
          -- no text follows a text, so the prose is a token of its own
          have hj : j.isText = false := by simpa [Item.isText] using hnext j rfl
          obtain ⟨tok, toks, htokens, htok⟩ := Item.head_tokens (hitems j List.mem_cons_self) hj
          rw [List.flatMap_cons, htokens, List.cons_append, joinText_cons htok]
          simp [Item.tokens]
      | _ => cases htext

theorem unknown_notMem_tokens (i : Item) (raw : String) : .unknown raw ∉ i.tokens := by
  cases i <;> simp [Item.tokens]

/-- Parsing undoes printing: a canonical row of items is read back as the tokens of its items, and
nothing in it is unknown. -/
theorem parse_print {items : List Item} (h : Canonical items) :
    parse (String.join (items.map Item.print)) = items.flatMap Item.tokens ∧
      ∀ raw, .unknown raw ∉ parse (String.join (items.map Item.print)) := by
  have hparse : parse (String.join (items.map Item.print)) = items.flatMap Item.tokens := by
    rw [parse, scan_eq_lex [] _ (by simp), String.toList_join, List.flatMap_map]
    exact lex_flatMap_print h
  refine ⟨hparse, ?_⟩
  intro raw hraw
  rw [hparse] at hraw
  obtain ⟨i, _, hi⟩ := List.mem_flatMap.mp hraw
  exact unknown_notMem_tokens i raw hi

theorem parse_print_meeting_dollars :
    Canonical [.text "See ", .citation .bracket ["a", "b"], .dollar "x", .fenced .dollars "y",
      .reference .command "id"] ∧
    parse "See [cite:a,b]$x$$$y$$\\ref\x7bid\x7d" =
      [.text "See ", .citation "a" "[cite:a", .citation "b" ",b]", .math "x" true "$x$",
        .math "y" false "$$y$$", .reference "id" "\\ref\x7bid\x7d"] := by
  have h : Canonical [.text "See ", .citation .bracket ["a", "b"], .dollar "x",
      .fenced .dollars "y", .reference .command "id"] := by decide
  exact ⟨h, (parse_print h).1⟩

end Manuscript.Markup
