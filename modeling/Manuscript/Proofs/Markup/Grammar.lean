import Manuscript.Proofs.Markup.Canonical
import Manuscript.Proofs.Markup.Extent
import Manuscript.Proofs.Text.Span

/-! The grammar of section text: what a text begins with, as a relation. Main statements: the relation
is what the lexer reads, and an opening does not depend on what follows it, so that the text behind it
may be cut off anywhere. -/
namespace Manuscript.Markup

open Manuscript.Text

inductive Head
  | atSign
  | bracket (name : List Char)
  | command (name : List Char)
  deriving DecidableEq, Repr

inductive Role
  | key
  | keys
  | target
  | unread
  deriving DecidableEq, Repr

namespace Role

def tokens (role : Role) (opener a closer : List Char) : List Token :=
  let raw := String.ofList (opener ++ (a ++ closer))
  match role with
  | key => if isIdentifier (trim a) then [.citation (String.ofList (trim a)) raw] else [.unknown raw]
  | keys =>
    if ((commaParts a).1 :: (commaParts a).2).all fun p => isIdentifier (trim p) then
      citationRow opener closer (commaParts a).1 (commaParts a).2
    else [.unknown raw]
  | target =>
    if isIdentifier (trim a) then [.reference (String.ofList (trim a)) raw] else [.unknown raw]
  | unread => [.unknown raw]

end Role

def IsName (name : List Char) : Prop := name ≠ [] ∧ ∀ c ∈ name, isLetter c = true

instance (name : List Char) : Decidable (IsName name) :=
  decidable_of_iff (name ≠ [] ∧ name.all isLetter = true) (and_congr_right fun _ => List.all_eq_true)

namespace Head

def opener : Head → List Char
  | atSign => ['[', '@']
  | bracket name => '[' :: (name ++ [':'])
  | command name => '\\' :: (name ++ ['{'])

def closer : Head → Char
  | atSign | bracket _ => ']'
  | command _ => '}'

/-- What stands for itself if the argument is not closed. -/
def alone : Head → List Char
  | command name => '\\' :: name
  | h => h.opener

def Valid : Head → Prop
  | atSign => True
  | bracket name => IsName name ∧ name.length ≤ argumentLimit
  | command name => IsName name

instance : (h : Head) → Decidable h.Valid
  | atSign => isTrue trivial
  | bracket _ => inferInstanceAs (Decidable (_ ∧ _))
  | command name => inferInstanceAs (Decidable (IsName name))

def Argument : Head → List Char → Prop
  | atSign | bracket _ => BracketArgument
  | command _ => BraceArgument

/-- The name of a command goes on as long as letters follow. -/
def EndsBefore : Head → List Char → Prop
  | atSign, _ | bracket _, _ => True
  | command _, rest => ∀ c ∈ rest.head?, isLetter c = false

def role : Head → Role
  | atSign => .key
  | bracket name =>
    if name = "cite".toList then .keys else if name = "ref".toList then .target else .unread
  | command name =>
    if isCiteCommand name then .keys else if isRefCommand name then .target else .unread

def tokens (h : Head) (a : List Char) : List Token := h.role.tokens h.opener a [h.closer]

end Head

def dollarToken (tex : List Char) : Token :=
  if allBlank tex then .unknown (String.ofList ('$' :: (tex ++ ['$'])))
  else .math (String.ofList tex) true (String.ofList ('$' :: (tex ++ ['$'])))

inductive Begins : List Char → Opening → Prop
  | run {run rest : List Char} (hne : run ≠ []) (hrun : ∀ c ∈ run, isOrdinary c = true)
      (hrest : ∀ c ∈ rest.head?, isOrdinary c = false) : Begins (run ++ rest) (.prose run rest)
  | escape (rest : List Char) : Begins ('\\' :: '$' :: rest) (.prose ['\\', '$'] rest)
  | bracket {rest : List Char} (hno : ∀ (h : Head) t, h.Valid → '[' :: rest ≠ h.opener ++ t) :
      Begins ('[' :: rest) (.prose ['['] rest)
  | backslash : Begins ['\\'] (.unknown ['\\'] [])
  | symbol {c : Char} (hc : c ≠ '$' ∧ c ≠ '(' ∧ c ≠ '[' ∧ isLetter c = false) (rest : List Char) :
      Begins ('\\' :: c :: rest) (.unknown ['\\', c] rest)
  | fence (f : Fence) (rest : List Char) :
      Begins (f.opener.toList ++ rest) (.fence f f.opener.toList rest)
  | inline {tex : List Char} (hne : tex ≠ []) (htex : Passed tex) (rest : List Char) :
      Begins ('$' :: (tex ++ '$' :: rest)) (.macros [dollarToken tex] rest)
  | dollar {rest : List Char} (hno : ∀ tex t, Passed tex → rest ≠ tex ++ '$' :: t) :
      Begins ('$' :: rest) (.unknown ['$'] rest)
  | closed {h : Head} {a : List Char} (hh : h.Valid) (ha : h.Argument a)
      (henv : h = .command "begin".toList → Environment.named? a = none) (rest : List Char) :
      Begins (h.opener ++ (a ++ h.closer :: rest)) (.macros (h.tokens a) rest)
  | unclosed {h : Head} {rest : List Char} (hh : h.Valid) (hends : h.EndsBefore rest)
      (hno : ∀ a t, h.Argument a → h.alone ++ rest ≠ h.opener ++ (a ++ h.closer :: t)) :
      Begins (h.alone ++ rest) (.unknown h.alone rest)

variable {c : Char} {s a t u v rest name tex opener : List Char} {o : Opening} {h : Head}

/-! Readers -/

theorem citations_eq (opener a closer rest : List Char) :
    citations opener a closer rest = .macros (Role.keys.tokens opener a closer) rest := by
  simp only [citations, Role.tokens]
  split <;> rfl

theorem reference_eq (opener a closer rest : List Char) :
    reference opener a closer rest = .macros (Role.target.tokens opener a closer) rest := by
  simp only [reference, Role.tokens]
  split <;> rfl

theorem command_eq (henv : name = "begin".toList → Environment.named? a = none)
    (rest : List Char) :
    command name a rest = .macros ((Head.command name).tokens a) rest := by
  have hunread : Opening.unknown ('\\' :: (name ++ ['{']) ++ (a ++ ['}'])) rest =
      .macros (Role.unread.tokens ('\\' :: (name ++ ['{'])) a ['}']) rest := rfl
  simp only [command, Head.tokens, Head.role]
  by_cases hbegin : name = "begin".toList
  · have hrole : isCiteCommand name = false ∧ isRefCommand name = false := by
      subst hbegin
      decide
    rw [if_pos hbegin, henv hbegin, hrole.1, hrole.2]
    exact hunread
  · rw [if_neg hbegin]
    split
    · exact citations_eq _ _ _ _
    · split
      · exact reference_eq _ _ _ _
      · exact hunread

theorem bracketMacro_closed (ha : BracketArgument a) :
    bracketMacro name (a ++ ']' :: rest) = .macros ((Head.bracket name).tokens a) rest := by
  have hclose : bracketed argumentLimit (a ++ ']' :: rest) = some (a, rest) :=
    bracketed_eq_some_iff.mpr ⟨rfl, ha⟩
  simp only [bracketMacro, hclose, Head.tokens, Head.role]
  split
  · exact citations_eq _ _ _ _
  · split
    · exact reference_eq _ _ _ _
    · rfl

theorem atCitation_closed (ha : BracketArgument a) :
    atCitation (a ++ ']' :: rest) = .macros (Head.atSign.tokens a) rest := by
  have hclose : bracketed argumentLimit (a ++ ']' :: rest) = some (a, rest) :=
    bracketed_eq_some_iff.mpr ⟨rfl, ha⟩
  simp only [atCitation, hclose, Head.tokens, Head.role, Role.tokens]
  split <;> rfl

theorem eq_of_named? {e : Environment} (h : Environment.named? a = some e) :
    a = e.name.toList := by
  have he := List.find?_some (p := fun e : Environment => e.name.toList == a) h
  exact (eq_of_beq he).symm

theorem isName_takeWhile (hc : isLetter c = true) (s : List Char) :
    IsName ((c :: s).takeWhile isLetter) := by
  refine ⟨?_, fun d hd => List.mem_takeWhile_imp hd⟩
  rw [List.takeWhile_cons_of_pos hc]
  exact List.cons_ne_nil _ _

/-! What the lexer reads is in the grammar. -/

theorem begins_command (hname : IsName name) (ha : BraceArgument a) (rest : List Char) :
    Begins ('\\' :: (name ++ '{' :: (a ++ '}' :: rest))) (command name a rest) := by
  by_cases henv : name = "begin".toList → Environment.named? a = none
  · have hb := Begins.closed (h := .command name) hname ha (fun h => henv (Head.command.inj h)) rest
    rw [command_eq henv]
    simpa [Head.opener, Head.closer] using hb
  · obtain ⟨rfl, hsome⟩ := Classical.not_imp.mp henv
    obtain ⟨e, he⟩ := Option.ne_none_iff_exists'.mp hsome
    have hb := Begins.fence (.environment e) rest
    rw [command, if_pos rfl, he]
    rw [eq_of_named? he]
    simpa [Fence.opener] using hb

theorem begins_named (hc : isLetter c = true) (s : List Char) :
    Begins ('\\' :: c :: s) (named (c :: s)) := by
  have hname := isName_takeWhile hc s
  have hends := head?_dropWhile isLetter (c :: s)
  have hs : (c :: s).takeWhile isLetter ++ (c :: s).dropWhile isLetter = c :: s :=
    List.takeWhile_append_dropWhile
  simp only [named]
  generalize (c :: s).takeWhile isLetter = name at *
  generalize (c :: s).dropWhile isLetter = rest at *
  rw [← hs]
  split
  · rename_i group
    cases hgroup : braced argumentLimit 0 group with
    | some found =>
      obtain ⟨rfl, ha⟩ := braced_eq_some_iff.mp hgroup
      exact begins_command hname ha found.2
    | none =>
      refine Begins.unclosed (h := .command name) hname hends fun a t ha he => ?_
      have hgroup' : group = a ++ '}' :: t := by
        simpa [Head.alone, Head.opener, Head.closer] using he
      rw [braced_eq_some_iff.mpr ⟨hgroup', ha⟩] at hgroup
      cases hgroup
  · rename_i hbrace
    refine Begins.unclosed (h := .command name) hname hends fun a t ha he => ?_
    have hrest : rest = '{' :: (a ++ '}' :: t) := by
      simpa [Head.alone, Head.opener, Head.closer] using he
    exact hbrace _ hrest

theorem begins_backslash (s : List Char) : Begins ('\\' :: s) (backslash s) := by
  cases s with
  | nil => exact .backslash
  | cons c s =>
    simp only [backslash]
    split
    · rename_i hdollar
      subst hdollar
      exact .escape s
    · rename_i hdollar
      split
      · rename_i hparen
        subst hparen
        exact .fence .paren s
      · rename_i hparen
        split
        · rename_i hbracket
          subst hbracket
          exact .fence .bracket s
        · rename_i hbracket
          split
          · rename_i hletter
            exact begins_named hletter s
          · rename_i hletter
            exact .symbol ⟨hdollar, hparen, hbracket, Bool.eq_false_iff.mpr hletter⟩ s

theorem begins_dollar (s : List Char) : Begins ('$' :: s) (dollar s) := by
  unfold dollar
  split
  · exact .fence .dollars _
  · rename_i hdouble
    cases hclose : untilDollar s with
    | none =>
      refine .dollar fun tex t htex hs => ?_
      rw [untilDollar_eq_some_iff.mpr ⟨hs, htex⟩] at hclose
      cases hclose
    | some found =>
      obtain ⟨tex, rest⟩ := found
      obtain ⟨rfl, htex⟩ := untilDollar_eq_some_iff.mp hclose
      have hne : tex ≠ [] := by
        rintro rfl
        exact hdouble rest rfl
      have hb := Begins.inline hne htex rest
      simp only [dollarToken] at hb
      dsimp only
      split
      · rwa [if_pos ‹_›] at hb
      · rwa [if_neg ‹_›] at hb

/-- A bracket macro that does not close leaves what comes before its argument. -/
theorem begins_unclosed (hh : h.Valid) (halone : h.alone = h.opener) (hcloser : h.closer = ']')
    (harg : h.Argument = BracketArgument) (hends : h.EndsBefore s)
    (hclose : bracketed argumentLimit s = none) :
    Begins (h.opener ++ s) (.unknown h.opener s) := by
  have hb := Begins.unclosed hh hends fun a t ha he => ?_
  · rwa [halone] at hb
  · rw [halone, List.append_cancel_left_eq, hcloser] at he
    rw [harg] at ha
    rw [bracketed_eq_some_iff.mpr ⟨he, ha⟩] at hclose
    cases hclose

theorem begins_atCitation (s : List Char) : Begins ('[' :: '@' :: s) (atCitation s) := by
  cases hclose : bracketed argumentLimit s with
  | none =>
    have hb := begins_unclosed (h := .atSign) trivial rfl rfl rfl trivial hclose
    rw [atCitation, hclose]
    exact hb
  | some found =>
    obtain ⟨rfl, ha⟩ := bracketed_eq_some_iff.mp hclose
    rw [atCitation_closed ha]
    exact .closed (h := .atSign) trivial ha (by simp) found.2

theorem begins_bracketMacro (hname : IsName name) (hshort : name.length ≤ argumentLimit)
    (s : List Char) : Begins ('[' :: (name ++ ':' :: s)) (bracketMacro name s) := by
  cases hclose : bracketed argumentLimit s with
  | none =>
    have hb := begins_unclosed (h := .bracket name) ⟨hname, hshort⟩ rfl rfl rfl trivial hclose
    rw [bracketMacro, hclose]
    simpa [Head.opener] using hb
  | some found =>
    obtain ⟨rfl, ha⟩ := bracketed_eq_some_iff.mp hclose
    rw [bracketMacro_closed ha]
    have hb := Begins.closed (h := .bracket name) ⟨hname, hshort⟩ ha (by simp) found.2
    simpa [Head.opener, Head.closer] using hb

/-- The letters at the start are the only name that a colon may follow. -/
theorem begins_prose_bracket (hat : ∀ t, s ≠ '@' :: t)
    (hno : ∀ r, s.dropWhile isLetter = ':' :: r →
      ¬(s.takeWhile isLetter ≠ [] ∧ (s.takeWhile isLetter).length ≤ argumentLimit)) :
    Begins ('[' :: s) (.prose ['['] s) := by
  refine .bracket fun h t hh he => ?_
  cases h with
  | atSign => exact hat t (List.cons.inj he).2
  | command name => exact absurd (List.cons.inj he).1 (by decide)
  | bracket name =>
    have he' : s = name ++ ':' :: t := by simpa [Head.opener] using he
    have hcolon : ∀ c ∈ (':' :: t).head?, isLetter c = false := by simp; decide
    obtain ⟨htake, hdrop⟩ := span_append hh.1.2 hcolon
    rw [← he'] at htake hdrop
    refine hno t hdrop ?_
    rw [htake]
    exact ⟨hh.1.1, hh.2⟩

theorem begins_bracket (s : List Char) : Begins ('[' :: s) (bracket s) := by
  unfold bracket
  split
  · exact begins_atCitation _
  · rename_i hat
    have hs : s.takeWhile isLetter ++ s.dropWhile isLetter = s := List.takeWhile_append_dropWhile
    have hletters : ∀ c ∈ s.takeWhile isLetter, isLetter c = true :=
      fun c hc => List.mem_takeWhile_imp hc
    dsimp only
    split
    · rename_i r hr
      split
      · rename_i hshort
        have hb := begins_bracketMacro ⟨hshort.1, hletters⟩ hshort.2 r
        rwa [← hr, hs] at hb
      · rename_i hlong
        exact begins_prose_bracket hat fun _ _ => hlong
    · rename_i hcolon
      exact begins_prose_bracket hat fun r hr => absurd hr (hcolon r)

theorem begins_opening (c : Char) (s : List Char) : Begins (c :: s) (opening c s) := by
  unfold opening
  split
  · rename_i hc
    exact hc ▸ begins_backslash s
  · split
    · rename_i hc
      exact hc ▸ begins_dollar s
    · split
      · rename_i hc
        exact hc ▸ begins_bracket s
      · have hs : s.takeWhile isOrdinary ++ s.dropWhile isOrdinary = s :=
          List.takeWhile_append_dropWhile
        have hc : isOrdinary c = true := isOrdinary_iff.mpr ⟨‹_›, ‹_›, ‹_›⟩
        have hrun : ∀ d ∈ c :: s.takeWhile isOrdinary, isOrdinary d = true :=
          List.forall_mem_cons.mpr ⟨hc, fun d hd => List.mem_takeWhile_imp hd⟩
        have hb := Begins.run (List.cons_ne_nil _ _) hrun (head?_dropWhile isOrdinary s)
        rwa [List.cons_append, hs] at hb

/-! What is in the grammar is read so. -/

theorem opens_unclosed_command (hname : IsName name) (hends : ∀ c ∈ s.head?, isLetter c = false)
    (hno : ∀ a t, BraceArgument a → s ≠ '{' :: (a ++ '}' :: t)) :
    Opens ('\\' :: (name ++ s)) (.unknown ('\\' :: name) s) := by
  refine ⟨'\\', _, rfl, ?_⟩
  obtain ⟨htake, hdrop⟩ := span_append hname.2 hends
  rw [opening_letters name hname.1 hname.2]
  simp only [named, htake, hdrop]
  split
  · rename_i group
    split
    · rename_i a t hgroup
      obtain ⟨rfl, ha⟩ := braced_eq_some_iff.mp hgroup
      exact absurd rfl (hno a t ha)
    · rfl
  · rfl

theorem bracketed_eq_none (hno : ∀ a t, BracketArgument a → s ≠ a ++ ']' :: t) :
    bracketed argumentLimit s = none := by
  cases hclose : bracketed argumentLimit s with
  | none => rfl
  | some found =>
    obtain ⟨hs, ha⟩ := bracketed_eq_some_iff.mp hclose
    exact absurd hs (hno found.1 found.2 ha)

theorem opens_prose_bracket (hno : ∀ (h : Head) t, h.Valid → '[' :: s ≠ h.opener ++ t) :
    Opens ('[' :: s) (.prose ['['] s) := by
  refine ⟨'[', s, rfl, ?_⟩
  change bracket s = _
  unfold bracket
  split
  · rename_i r
    exact absurd rfl (hno .atSign r trivial)
  · dsimp only
    split
    · rename_i r hr
      split
      · rename_i hname
        have hs : s.takeWhile isLetter ++ s.dropWhile isLetter = s :=
          List.takeWhile_append_dropWhile
        refine absurd ?_ (hno (.bracket (s.takeWhile isLetter)) r
          ⟨⟨hname.1, fun c hc => List.mem_takeWhile_imp hc⟩, hname.2⟩)
        rw [Head.opener, List.cons_append, List.append_assoc, List.singleton_append, ← hr, hs]
      · rfl
    · rfl

theorem opens_inline (hne : tex ≠ []) (htex : Passed tex) (rest : List Char) :
    Opens ('$' :: (tex ++ '$' :: rest)) (.macros [dollarToken tex] rest) := by
  refine ⟨'$', _, rfl, ?_⟩
  have hclose : untilDollar (tex ++ '$' :: rest) = some (tex, rest) :=
    untilDollar_eq_some_iff.mpr ⟨rfl, htex⟩
  change dollar (tex ++ '$' :: rest) = _
  unfold dollar
  split
  · rename_i t he
    cases htex with
    | nil => exact absurd rfl hne
    | plain hc _ => exact absurd (List.cons.inj he).1 hc.2.2
    | escaped c _ => exact absurd (List.cons.inj he).1 (by decide)
  · rw [hclose, dollarToken]
    dsimp only
    split <;> rfl

theorem opens_lone_dollar (hno : ∀ tex t, Passed tex → s ≠ tex ++ '$' :: t) :
    Opens ('$' :: s) (.unknown ['$'] s) := by
  refine ⟨'$', _, rfl, ?_⟩
  change dollar s = _
  unfold dollar
  split
  · rename_i t
    exact absurd rfl (hno [] t .nil)
  · split
    · rename_i tex t hclose
      obtain ⟨hs, htex⟩ := untilDollar_eq_some_iff.mp hclose
      exact absurd hs (hno tex t htex)
    · rfl

theorem opens_closed (hh : h.Valid) (ha : h.Argument a)
    (henv : h = .command "begin".toList → Environment.named? a = none) (rest : List Char) :
    Opens (h.opener ++ (a ++ h.closer :: rest)) (.macros (h.tokens a) rest) := by
  cases h with
  | atSign => exact ⟨'[', _, rfl, atCitation_closed ha⟩
  | bracket name =>
    have ho := opens_bracketMacro (s := a ++ ']' :: rest) name hh.1.1 hh.1.2 hh.2
    rw [bracketMacro_closed ha] at ho
    simpa [Head.opener, Head.closer] using ho
  | command name =>
    have hgroup : braced argumentLimit 0 (a ++ '}' :: rest) = some (a, rest) :=
      braced_eq_some_iff.mpr ⟨rfl, ha⟩
    have ho := opens_command name hh.1 hh.2 hgroup
    rw [command_eq fun hname => henv (congrArg Head.command hname)] at ho
    simpa [Head.opener, Head.closer] using ho

theorem opens_unclosed (hh : h.Valid) (hends : h.EndsBefore s)
    (hno : ∀ a t, h.Argument a → h.alone ++ s ≠ h.opener ++ (a ++ h.closer :: t)) :
    Opens (h.alone ++ s) (.unknown h.alone s) := by
  cases h with
  | atSign =>
    have hclose := bracketed_eq_none fun a t ha he => hno a t ha (congrArg _ he)
    refine ⟨'[', _, rfl, ?_⟩
    change atCitation s = _
    rw [atCitation, hclose]
    rfl
  | bracket name =>
    have hclose := bracketed_eq_none fun a t ha he => hno a t ha (congrArg _ he)
    have ho := opens_bracketMacro (s := s) name hh.1.1 hh.1.2 hh.2
    rw [bracketMacro, hclose] at ho
    simpa [Head.alone, Head.opener] using ho
  | command name =>
    refine opens_unclosed_command hh hends fun a t ha he => hno a t ha ?_
    simp [Head.alone, Head.opener, Head.closer, he]

/-- The grammar is what the lexer reads. -/
theorem begins_iff_opens : Begins s o ↔ Opens s o := by
  constructor
  · intro hb
    cases hb with
    | @run run rest hne hrun hrest =>
      cases run with
      | nil => exact absurd rfl hne
      | cons c run =>
        obtain ⟨hc, hrun⟩ := List.forall_mem_cons.mp hrun
        obtain ⟨htake, hdrop⟩ := span_append hrun hrest
        refine ⟨c, run ++ rest, rfl, ?_⟩
        rw [opening_of_isOrdinary hc, htake, hdrop]
    | escape rest => exact ⟨'\\', _, rfl, rfl⟩
    | bracket hno => exact opens_prose_bracket hno
    | backslash => exact ⟨'\\', _, rfl, rfl⟩
    | symbol hc rest =>
      obtain ⟨hdollar, hparen, hbracket, hletter⟩ := hc
      refine ⟨'\\', _, rfl, ?_⟩
      simp [opening, backslash, hdollar, hparen, hbracket, hletter]
    | fence f rest => exact opens_fence f
    | inline hne htex rest => exact opens_inline hne htex rest
    | dollar hno => exact opens_lone_dollar hno
    | closed hh ha henv rest => exact opens_closed hh ha henv rest
    | unclosed hh hends hno => exact opens_unclosed hh hends hno
  · rintro ⟨c, t, rfl, rfl⟩
    exact begins_opening c t

theorem lex_nil : lex [] = [] := by rw [lex]

theorem lex_of_begins_prose {run : List Char} (hb : Begins s (.prose run rest)) :
    lex s = joinText run (lex rest) := by
  obtain ⟨c, t, rfl, ho⟩ := begins_iff_opens.mp hb
  exact lex_of_prose ho

theorem lex_of_begins_macros {tokens : List Token} (hb : Begins s (.macros tokens rest)) :
    lex s = tokens ++ lex rest := lex_of_opens_macros (begins_iff_opens.mp hb)

theorem lex_of_begins_fence {f : Fence} (hb : Begins s (.fence f opener rest)) :
    lex s = (f.close opener rest (cut f.closer rest)).1 ::
      lex (f.close opener rest (cut f.closer rest)).2 := by
  obtain ⟨c, t, rfl, ho⟩ := begins_iff_opens.mp hb
  exact lex_of_fence ho

/-! Tokens of an opening -/

inductive MacroToken (opener a closer : List Char) : Token → Prop
  | citation {p : List Char} (hp : isIdentifier (trim p) = true) (before after : List Char) :
      MacroToken opener a closer
        (.citation (String.ofList (trim p)) (String.ofList (before ++ (p ++ after))))
  | reference (ha : isIdentifier (trim a) = true) :
      MacroToken opener a closer
        (.reference (String.ofList (trim a)) (String.ofList (opener ++ (a ++ closer))))
  | unknown : MacroToken opener a closer (.unknown (String.ofList (opener ++ (a ++ closer))))

theorem macroToken_of_mem_citationRow {lead part opener closer : List Char}
    {parts : List (List Char)} {t : Token}
    (hparts : ∀ p ∈ part :: parts, isIdentifier (trim p) = true)
    (ht : t ∈ citationRow lead closer part parts) : MacroToken opener a closer t := by
  induction parts generalizing lead part with
  | nil =>
    rw [List.mem_singleton.mp ht]
    exact .citation (hparts part List.mem_cons_self) lead closer
  | cons next parts ih =>
    obtain ⟨hpart, hparts⟩ := List.forall_mem_cons.mp hparts
    rcases List.mem_cons.mp ht with rfl | ht
    · have hb : MacroToken opener a closer (.citation (String.ofList (trim part))
          (String.ofList (lead ++ (part ++ [])))) := .citation hpart lead []
      rwa [List.append_nil] at hb
    · exact ih hparts ht

theorem Role.macroToken_of_mem (role : Role) {opener closer : List Char} {t : Token}
    (ht : t ∈ role.tokens opener a closer) : MacroToken opener a closer t := by
  have hunknown : t ∈ [Token.unknown (String.ofList (opener ++ (a ++ closer)))] →
      MacroToken opener a closer t := fun ht => List.mem_singleton.mp ht ▸ .unknown
  cases role with
  | key =>
    simp only [Role.tokens] at ht
    split at ht
    · exact List.mem_singleton.mp ht ▸ .citation ‹_› opener closer
    · exact hunknown ht
  | keys =>
    simp only [Role.tokens] at ht
    split at ht
    · exact macroToken_of_mem_citationRow (List.all_eq_true.mp ‹_›) ht
    · exact hunknown ht
  | target =>
    simp only [Role.tokens] at ht
    split at ht
    · exact List.mem_singleton.mp ht ▸ .reference ‹_›
    · exact hunknown ht
  | unread => exact hunknown ht

theorem isText_dollarToken (tex : List Char) : (dollarToken tex).isText = false := by
  unfold dollarToken
  split <;> rfl

theorem Begins.textless (hb : Begins s o) : o.Textless := by
  cases hb with
  | run | escape | bracket | fence => trivial
  | backslash | symbol | dollar | unclosed => exact textless_unknown _ _
  | inline => exact textless_singleton (isText_dollarToken _) _
  | closed =>
    intro t ht
    cases Role.macroToken_of_mem _ ht <;> rfl

theorem textless_opening (c : Char) (s : List Char) : (opening c s).Textless :=
  (begins_opening c s).textless

def Opening.tokens : Opening → List Token
  | prose _ _ => []
  | macros tokens _ => tokens
  | fence f opener rest => [(f.close opener rest (cut f.closer rest)).1]

theorem mem_of_mem_joinText {t : Token} {run : List Char} {tokens : List Token}
    (htext : t.isText = false) (ht : t ∈ joinText run tokens) : t ∈ tokens := by
  have hcons : ∀ x l, t ∈ Token.text x :: l → t ∈ l := by
    intro x l ht
    rcases List.mem_cons.mp ht with rfl | ht
    · cases htext
    · exact ht
  cases tokens with
  | nil => exact hcons _ _ ht
  | cons u tokens =>
    cases u with
    | text => exact List.mem_cons_of_mem _ (hcons _ _ ht)
    | _ => exact hcons _ _ ht

theorem exists_begins_of_mem_lex {t : Token} (ht : t ∈ lex s) (htext : t.isText = false) :
    ∃ s' o, Begins s' o ∧ t ∈ o.tokens := by
  fun_induction lex s with
  | case1 => cases ht
  | case2 c s run rest ho ih => exact ih (mem_of_mem_joinText htext ht)
  | case3 c s tokens rest ho ih =>
    rcases List.mem_append.mp ht with ht | ht
    · exact ⟨_, .macros tokens rest, ho ▸ begins_opening c s, ht⟩
    · exact ih ht
  | case4 c s f opener rest ho closed ih =>
    rcases List.mem_cons.mp ht with rfl | ht
    · exact ⟨_, .fence f opener rest, ho ▸ begins_opening c s, List.mem_singleton_self _⟩
    · exact ih ht

/-! Cutting the text off behind an opening -/

def Opening.withRest : Opening → List Char → Opening
  | prose run _, rest => prose run rest
  | macros tokens _, rest => macros tokens rest
  | fence f opener _, rest => fence f opener rest

@[simp] theorem Opening.withRest_macros (tokens : List Token) (rest u : List Char) :
    (Opening.macros tokens rest).withRest u = .macros tokens u := rfl

@[simp] theorem Opening.taken_unknown (raw rest : List Char) :
    (Opening.unknown raw rest).taken = raw := by simp [unknown, taken, Token.raw]

theorem Role.source_tokens (role : Role) (opener a closer : List Char) :
    source (role.tokens opener a closer) = opener ++ (a ++ closer) := by
  cases role with
  | key | target =>
    simp only [Role.tokens]
    split <;> simp [Token.raw]
  | keys =>
    simp only [Role.tokens]
    split
    · rw [source_citationRow, ← List.append_assoc (commaParts a).1, commaParts_eq]
    · simp [Token.raw]
  | unread => simp [Role.tokens, Token.raw]

theorem Head.source_tokens (h : Head) (a : List Char) :
    source (h.tokens a) = h.opener ++ (a ++ [h.closer]) := h.role.source_tokens _ _ _

theorem raw_dollarToken (tex : List Char) :
    (dollarToken tex).raw.toList = '$' :: (tex ++ ['$']) := by
  unfold dollarToken
  split <;> simp [Token.raw]

theorem mem_head?_append {p : Char → Prop} (h : ∀ c ∈ (u ++ v).head?, p c) :
    ∀ c ∈ u.head?, p c := by
  cases u with
  | nil => simp
  | cons d u => exact h

theorem Head.EndsBefore.of_append (hends : h.EndsBefore (u ++ v)) : h.EndsBefore u := by
  cases h with
  | atSign | bracket name => trivial
  | command name => exact mem_head?_append hends

/-- Text behind an opening may be cut off: what closes an argument in less text would have closed it in
more, and what has been closed already needs no more of it. -/
theorem Begins.withRest (hb : Begins s o) (hrest : o.rest = u ++ v) :
    Begins (o.taken ++ u) (o.withRest u) := by
  cases hb with
  | run hne hrun hends =>
    obtain rfl : _ = u ++ v := hrest
    exact .run hne hrun (mem_head?_append hends)
  | escape => exact .escape u
  | bracket hno =>
    obtain rfl : _ = u ++ v := hrest
    refine .bracket fun h t hh he => hno h (t ++ v) hh ?_
    rw [← List.append_assoc, ← he]
    rfl
  | backslash =>
    obtain ⟨rfl, rfl⟩ := List.append_eq_nil_iff.mp hrest.symm
    exact .backslash
  | symbol hc =>
    rw [Opening.taken_unknown]
    exact .symbol hc u
  | fence f => exact .fence f u
  | @inline tex hne htex =>
    have hb := Begins.inline hne htex u
    simpa [Opening.taken, raw_dollarToken] using hb
  | dollar hno =>
    obtain rfl : _ = u ++ v := hrest
    rw [Opening.taken_unknown]
    refine .dollar fun tex t htex (he : u = tex ++ '$' :: t) => hno tex (t ++ v) htex ?_
    rw [he, List.append_assoc]
    rfl
  | @closed h a hh ha henv =>
    have hb := Begins.closed hh ha henv u
    simpa [Opening.taken, Head.source_tokens] using hb
  | unclosed hh hends hno =>
    obtain rfl : _ = u ++ v := hrest
    rw [Opening.taken_unknown]
    refine .unclosed hh hends.of_append fun a t ha he => hno a (t ++ v) ha ?_
    rw [← List.append_assoc, he]
    simp

end Manuscript.Markup
