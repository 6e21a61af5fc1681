import Manuscript.Proofs.Markup.Grammar

/-! Well-formed tokens. What an opening reads is well-formed, prose is put together from runs in which
every dollar is escaped, and so all tokens of a text are well-formed and no two of them are prose side by
side. -/
namespace Manuscript.Markup

open Manuscript.Text

/-- A backslash stands directly before a dollar, and a dollar directly after a backslash. -/
structure EscapesDollars (s : List Char) : Prop where
  backslash : ∀ a b, s = a ++ '\\' :: b → b.head? = some '$'
  dollar : ∀ a b, s = a ++ '$' :: b → a.getLast? = some '\\'

def Token.WellFormed : Token → Prop
  | .text t => EscapesDollars t.toList
  | .math tex _ raw => (∃ c ∈ tex.toList, isBlank c = false) ∧ tex.toList <:+: raw.toList
  | .citation key raw | .reference key raw =>
    isIdentifier key.toList = true ∧ key.toList <:+: raw.toList ∧ '\n' ∉ raw.toList
  | .unknown raw => ∃ c, raw.toList.head? = some c ∧ (c = '\\' ∨ c = '$' ∨ c = '[')

variable {c : Char} {s a run rest tex opener closer : List Char} {tokens : List Token} {t : Token}
  {o : Opening} {h : Head}

theorem wellFormed_unknown (hc : c = '\\' ∨ c = '$' ∨ c = '[') (s : List Char) :
    (Token.unknown (String.ofList (c :: s))).WellFormed := ⟨c, by simp, hc⟩

/-! Macros -/

theorem Head.exists_opener (h : Head) :
    ∃ c t, h.opener = c :: t ∧ (c = '\\' ∨ c = '$' ∨ c = '[') := by
  cases h with
  | atSign | bracket name => exact ⟨'[', _, rfl, .inr (.inr rfl)⟩
  | command name => exact ⟨'\\', _, rfl, .inl rfl⟩

theorem Head.Valid.line (hh : h.Valid) (ha : h.Argument a) :
    '\n' ∉ h.opener ++ (a ++ [h.closer]) := by
  have hname : ∀ {name}, IsName name → '\n' ∉ name := fun hname hmem =>
    absurd (hname.2 _ hmem) (by decide)
  have hflat : ∀ {a}, BracketArgument a → '\n' ∉ a := fun ha hmem => (ha.flat _ hmem).1 rfl
  cases h with
  | atSign => simp [Head.opener, Head.closer, hflat ha]
  | bracket name => simp [Head.opener, Head.closer, hname hh.1, hflat ha]
  | command name => simp [Head.opener, Head.closer, hname hh, ha.line]

theorem MacroToken.wellFormed (ht : MacroToken opener a closer t)
    (hopener : ∃ c t, opener = c :: t ∧ (c = '\\' ∨ c = '$' ∨ c = '['))
    (hline : '\n' ∉ t.raw.toList) : t.WellFormed := by
  cases ht with
  | @citation p hp before after =>
    refine ⟨by simpa using hp, ?_, hline⟩
    rw [String.toList_ofList, String.toList_ofList]
    exact (trim_isInfix p).trans ⟨before, after, by simp⟩
  | reference ha =>
    refine ⟨by simpa using ha, ?_, hline⟩
    rw [String.toList_ofList, String.toList_ofList]
    exact (trim_isInfix a).trans ⟨opener, closer, by simp⟩
  | unknown =>
    obtain ⟨c, t, rfl, hc⟩ := hopener
    exact wellFormed_unknown hc _

theorem raw_subset_source (ht : t ∈ tokens) : t.raw.toList ⊆ source tokens := by
  intro c hc
  exact List.mem_flatMap.mpr ⟨t, ht, hc⟩

/-! Math -/

theorem exists_of_not_allBlank (hs : ¬ allBlank s = true) : ∃ c ∈ s, isBlank c = false := by
  simpa [allBlank] using hs

theorem dollarToken_wellFormed (tex : List Char) : (dollarToken tex).WellFormed := by
  unfold dollarToken
  split
  · exact wellFormed_unknown (.inr (.inl rfl)) _
  · rename_i hblank
    refine ⟨by simpa using exists_of_not_allBlank hblank, ?_⟩
    exact ⟨['$'], ['$'], by simp⟩

theorem Fence.exists_opener (f : Fence) :
    ∃ c t, f.opener.toList = c :: t ∧ (c = '\\' ∨ c = '$' ∨ c = '[') := by
  cases f with
  | dollars => exact ⟨'$', _, rfl, .inr (.inl rfl)⟩
  | paren | bracket => exact ⟨'\\', _, rfl, .inl rfl⟩
  | environment e => cases e <;> exact ⟨'\\', _, rfl, .inl rfl⟩

theorem Fence.close_wellFormed (f : Fence) (s : List Char)
    (found : Option (List Char × List Char)) :
    (f.close f.opener.toList s found).1.WellFormed := by
  obtain ⟨c, t, hopener, hc⟩ := f.exists_opener
  cases found with
  | none =>
    rw [hopener]
    exact wellFormed_unknown hc t
  | some found =>
    simp only [Fence.close]
    split
    · rw [hopener]
      exact wellFormed_unknown hc _
    · rename_i hblank
      obtain ⟨d, hd, hdblank⟩ := exists_of_not_allBlank hblank
      split
      · exact ⟨⟨d, by simp [hd], hdblank⟩, List.infix_rfl⟩
      · exact ⟨⟨d, by simpa using hd, hdblank⟩, f.opener.toList, f.closer, by simp⟩

theorem Begins.wellFormed (hb : Begins s o) (ht : t ∈ o.tokens) : t.WellFormed := by
  cases hb with
  | run | escape | bracket => cases ht
  | backslash | symbol =>
    rw [List.mem_singleton.mp ht]
    exact wellFormed_unknown (.inl rfl) _
  | fence f rest =>
    rw [List.mem_singleton.mp ht]
    exact f.close_wellFormed rest _
  | inline =>
    rw [List.mem_singleton.mp ht]
    exact dollarToken_wellFormed _
  | dollar =>
    rw [List.mem_singleton.mp ht]
    exact wellFormed_unknown (.inr (.inl rfl)) _
  | @closed h a hh ha =>
    apply (Role.macroToken_of_mem _ ht).wellFormed h.exists_opener
    intro hmem
    have hsource := raw_subset_source ht hmem
    exact hh.line ha (h.source_tokens a ▸ hsource)
  | @unclosed h =>
    rw [List.mem_singleton.mp ht]
    cases h with
    | atSign | bracket name => exact wellFormed_unknown (.inr (.inr rfl)) _
    | command name => exact wellFormed_unknown (.inl rfl) _

/-! Prose -/

inductive Prose : List Char → Prop
  | nil : Prose []
  | plain {c : Char} {s : List Char} (hc : c ≠ '\\' ∧ c ≠ '$') : Prose s → Prose (c :: s)
  | escape {s : List Char} : Prose s → Prose ('\\' :: '$' :: s)

theorem Prose.append (hs : Prose s) (hrest : Prose rest) : Prose (s ++ rest) := by
  induction hs with
  | nil => exact hrest
  | plain hc _ ih => exact .plain hc ih
  | escape _ ih => exact .escape ih

theorem prose_of_plain (hs : ∀ c ∈ s, c ≠ '\\' ∧ c ≠ '$') : Prose s := by
  induction s with
  | nil => exact .nil
  | cons c s ih =>
    obtain ⟨hc, hs⟩ := List.forall_mem_cons.mp hs
    exact .plain hc (ih hs)

theorem EscapesDollars.plain (hc : c ≠ '\\' ∧ c ≠ '$') (hs : EscapesDollars s) :
    EscapesDollars (c :: s) where
  backslash a b he := by
    cases a with
    | nil => exact absurd (List.cons.inj he).1 hc.1
    | cons d a => exact hs.backslash a b (List.cons.inj he).2
  dollar a b he := by
    cases a with
    | nil => exact absurd (List.cons.inj he).1 hc.2
    | cons d a =>
      have hlast := hs.dollar a b (List.cons.inj he).2
      simp [List.getLast?_cons, hlast]

theorem EscapesDollars.escape (hs : EscapesDollars s) : EscapesDollars ('\\' :: '$' :: s) where
  backslash a b he := by
    cases a with
    | nil =>
      rw [← (List.cons.inj he).2]
      rfl
    | cons d a =>
      have he := (List.cons.inj he).2
      cases a with
      | nil => exact absurd (List.cons.inj he).1 (by decide)
      | cons d a => exact hs.backslash a b (List.cons.inj he).2
  dollar a b he := by
    cases a with
    | nil => exact absurd (List.cons.inj he).1 (by decide)
    | cons d a =>
      obtain ⟨rfl, htail⟩ := List.cons.inj he
      cases a with
      | nil => rfl
      | cons d a =>
        have hlast := hs.dollar a b (List.cons.inj htail).2
        simp [List.getLast?_cons, hlast]

theorem Prose.escapesDollars (hs : Prose s) : EscapesDollars s := by
  induction hs with
  | nil => exact ⟨by simp, by simp⟩
  | plain hc _ ih => exact ih.plain hc
  | escape _ ih => exact ih.escape

theorem Begins.prose (hb : Begins s (.prose run rest)) : run ≠ [] ∧ Prose run := by
  cases hb with
  | run hne hrun =>
    refine ⟨hne, prose_of_plain fun c hc => ?_⟩
    obtain ⟨hslash, hdollar, -⟩ := isOrdinary_iff.mp (hrun c hc)
    exact ⟨hslash, hdollar⟩
  | escape => exact ⟨List.cons_ne_nil _ _, .escape .nil⟩
  | bracket => exact ⟨List.cons_ne_nil _ _, .plain (by decide) .nil⟩

theorem prose_joinText {run : List Char} {text : String} (hrun : run ≠ [] ∧ Prose run)
    (htokens : ∀ u, .text u ∈ tokens → u ≠ "" ∧ Prose u.toList)
    (ht : .text text ∈ joinText run tokens) : text ≠ "" ∧ Prose text.toList := by
  have halone : String.ofList run ≠ "" ∧ Prose (String.ofList run).toList := by
    refine ⟨by simpa using hrun.1, ?_⟩
    rw [String.toList_ofList]
    exact hrun.2
  have hcons : ∀ tokens, (∀ u, .text u ∈ tokens → u ≠ "" ∧ Prose u.toList) →
      .text text ∈ Token.text (String.ofList run) :: tokens → text ≠ "" ∧ Prose text.toList := by
    intro tokens htokens ht
    rcases List.mem_cons.mp ht with he | ht
    · cases he
      exact halone
    · exact htokens text ht
  cases tokens with
  | nil => exact hcons [] htokens ht
  | cons u tokens =>
    cases u with
    | text u =>
      rcases List.mem_cons.mp ht with he | ht
      · cases he
        obtain ⟨-, hu⟩ := htokens u List.mem_cons_self
        refine ⟨by simp [hrun.1], ?_⟩
        rw [String.toList_append, String.toList_ofList]
        exact hrun.2.append hu
      · exact htokens text (List.mem_cons_of_mem _ ht)
    | _ => exact hcons _ htokens ht

theorem prose_of_mem_lex {text : String} (ht : .text text ∈ lex s) :
    text ≠ "" ∧ Prose text.toList := by
  fun_induction lex s generalizing text with
  | case1 => cases ht
  | case2 c s run rest ho ih =>
    have hb : Begins (c :: s) (.prose run rest) := ho ▸ begins_opening c s
    exact prose_joinText hb.prose (fun _ hu => ih hu) ht
  | case3 c s tokens rest ho ih =>
    have hb : Begins (c :: s) (.macros tokens rest) := ho ▸ begins_opening c s
    rcases List.mem_append.mp ht with ht | ht
    · cases hb.textless _ ht
    · exact ih ht
  | case4 c s f opener rest ho closed =>
    rename_i ih
    rcases List.mem_cons.mp ht with he | ht
    · have hclosed := isText_close f opener rest (cut f.closer rest)
      rw [← he] at hclosed
      cases hclosed
    · exact ih ht

/-! All tokens of a text -/

def Parted (tokens : List Token) : Prop :=
  tokens.IsChain fun t u => t.isText = false ∨ u.isText = false

theorem parted_cons (ht : t.isText = false) (htokens : Parted tokens) : Parted (t :: tokens) :=
  List.isChain_cons.mpr ⟨fun _ _ => .inl ht, htokens⟩

theorem parted_append {more : List Token} (hmore : ∀ t ∈ more, t.isText = false)
    (htokens : Parted tokens) : Parted (more ++ tokens) := by
  induction more with
  | nil => exact htokens
  | cons t more ih =>
    obtain ⟨ht, hmore⟩ := List.forall_mem_cons.mp hmore
    exact parted_cons ht (ih hmore)

theorem parted_joinText (run : List Char) (htokens : Parted tokens) :
    Parted (joinText run tokens) := by
  cases tokens with
  | nil => exact List.isChain_singleton _
  | cons t tokens =>
    cases htext : t.isText with
    | false =>
      rw [joinText_cons htext]
      refine List.isChain_cons.mpr ⟨fun u hu => .inr ?_, htokens⟩
      rw [← Option.mem_some.mp hu, htext]
    | true =>
      cases t with
      | text t =>
        obtain ⟨hnext, htokens⟩ := List.isChain_cons.mp htokens
        exact List.isChain_cons.mpr ⟨hnext, htokens⟩
      | _ => cases htext

theorem parted_lex (s : List Char) : Parted (lex s) := by
  fun_induction lex s with
  | case1 => exact List.isChain_nil
  | case2 c s run rest ho ih => exact parted_joinText run ih
  | case3 c s tokens rest ho ih =>
    have hb : Begins (c :: s) (.macros tokens rest) := ho ▸ begins_opening c s
    exact parted_append hb.textless ih
  | case4 c s f opener rest ho closed ih => exact parted_cons (isText_close f opener rest _) ih

theorem Token.WellFormed.raw_ne (hwell : t.WellFormed) (htext : t.isText = false) :
    t.raw.toList ≠ [] := by
  have hinfix : ∀ {a b : List Char}, a ≠ [] → a <:+: b → b ≠ [] := by
    rintro a b ha hab rfl
    exact ha (List.infix_nil.mp hab)
  cases t with
  | text => cases htext
  | math tex inline raw =>
    obtain ⟨⟨c, hc, -⟩, hraw⟩ := hwell
    exact hinfix (List.ne_nil_of_mem hc) hraw
  | citation key raw | reference key raw =>
    obtain ⟨hkey, hraw, -⟩ := hwell
    exact hinfix (isIdentifier_iff.mp hkey).1 hraw
  | unknown raw =>
    obtain ⟨c, hc, -⟩ := hwell
    rintro hnil
    rw [show Token.raw (.unknown raw) = raw from rfl] at hnil
    rw [hnil] at hc
    cases hc

/-- All tokens of a text are well-formed, none has an empty raw text, and prose is never split. -/
theorem parse_wellFormed (text : String) :
    (∀ t ∈ parse text, t.raw ≠ "" ∧ t.WellFormed) ∧
      (parse text).IsChain fun t u => t.isText = false ∨ u.isText = false := by
  have hparse : parse text = lex text.toList := scan_eq_lex [] _ (List.forall_mem_nil _)
  rw [hparse]
  refine ⟨?_, parted_lex _⟩
  intro t ht
  cases htext : t.isText with
  | true =>
    cases t with
    | text run =>
      obtain ⟨hne, hprose⟩ := prose_of_mem_lex ht
      exact ⟨hne, hprose.escapesDollars⟩
    | _ => cases htext
  | false =>
    obtain ⟨s, o, hb, ho⟩ := exists_begins_of_mem_lex ht htext
    have hwell := hb.wellFormed ho
    exact ⟨fun hraw => hwell.raw_ne htext (String.toList_eq_nil_iff.mpr hraw), hwell⟩

end Manuscript.Markup
