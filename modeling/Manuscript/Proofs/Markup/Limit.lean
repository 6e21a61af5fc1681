import Manuscript.Proofs.Markup.Grammar

/-! The limit on arguments. In every spelling a macro of one key is read exactly if the key has fewer
bytes than the limit; from the limit on the macro falls apart into its beginning and prose. -/
namespace Manuscript.Markup

open Manuscript.Text

namespace Head

def write (h : Head) (a : String) : String := String.ofList (h.opener ++ (a.toList ++ [h.closer]))

def citing : List Head :=
  [.bracket "cite".toList, .atSign, .command "cite".toList, .command "citep".toList,
    .command "citet".toList]

def referring : List Head :=
  [.bracket "ref".toList, .command "ref".toList, .command "eqref".toList, .command "autoref".toList]

end Head

variable {a s : List Char} {h : Head} {role : Role} {key : String}

theorem nests_of_flat (hflat : ∀ c ∈ a, c ≠ '{' ∧ c ≠ '}') : Nests 0 a := by
  induction a with
  | nil => exact rfl
  | cons c a ih =>
    obtain ⟨hc, hflat⟩ := List.forall_mem_cons.mp hflat
    exact (nests_cons hc.1 hc.2).mpr (ih hflat)

theorem argument_of_isIdentifier (h : Head) (hid : isIdentifier a = true)
    (hshort : byteLength a < argumentLimit) : h.Argument a := by
  have hplain : ∀ d, isIdentifierChar d = false → ∀ c ∈ a, c ≠ d := fun d hd c hc =>
    ne_of_isIdentifierChar (isIdentifierChar_of_mem hid hc) hd
  have hline := hplain '\n' (by decide)
  have hbracket : BracketArgument a := ⟨hshort, fun c hc =>
    ⟨hline c hc, hplain '[' (by decide) c hc, hplain ']' (by decide) c hc⟩⟩
  have hbrace : BraceArgument a := ⟨hshort, fun hmem => hline _ hmem rfl,
    nests_of_flat fun c hc => ⟨hplain '{' (by decide) c hc, hplain '}' (by decide) c hc⟩⟩
  cases h with
  | atSign | bracket name => exact hbracket
  | command name => exact hbrace

/-! Short keys -/

theorem Role.tokens_citing (hrole : role = .key ∨ role = .keys) (hid : isIdentifier a = true)
    (opener closer : List Char) : role.tokens opener a closer =
      [.citation (String.ofList a) (String.ofList (opener ++ (a ++ closer)))] := by
  have htrim := trim_eq_self_of_isIdentifier hid
  rcases hrole with rfl | rfl
  · simp only [Role.tokens, htrim, if_pos hid]
  · have hrow := citations_joined opener closer [] hid (List.forall_mem_nil _)
    rw [joined, List.flatMap_nil, List.append_nil, citations_eq] at hrow
    rw [(Opening.macros.inj hrow).1, citationRow, htrim]

theorem Role.tokens_referring (hid : isIdentifier a = true) (opener closer : List Char) :
    Role.target.tokens opener a closer =
      [.reference (String.ofList a) (String.ofList (opener ++ (a ++ closer)))] := by
  simp only [Role.tokens, trim_eq_self_of_isIdentifier hid, if_pos hid]

theorem parse_write_of_argument (hh : h.Valid) (hbegin : h ≠ .command "begin".toList)
    (harg : h.Argument key.toList) : parse (h.write key) = h.tokens key.toList := by
  have hb := Begins.closed hh harg (fun he => absurd he hbegin) []
  rw [parse_eq_lex, Head.write, String.toList_ofList,
    lex_of_begins_macros hb, lex_nil, List.append_nil]

theorem parse_write_short (hh : h.Valid) (hbegin : h ≠ .command "begin".toList)
    (hid : isIdentifier key.toList = true) (hshort : key.utf8ByteSize < argumentLimit) :
    parse (h.write key) = h.tokens key.toList := by
  apply parse_write_of_argument hh hbegin
  apply argument_of_isIdentifier h hid
  rwa [byteLength_toList]

/-! Long keys -/

def Head.bridge : Head → List Char
  | atSign | bracket _ => []
  | command _ => ['{']

theorem Head.alone_append_bridge (h : Head) : h.alone ++ h.bridge = h.opener := by
  cases h with
  | atSign => rfl
  | bracket name => exact List.append_nil _
  | command name => rfl

theorem Head.endsBefore_bridge (h : Head) (s : List Char) : h.EndsBefore (h.bridge ++ s) := by
  cases h with
  | atSign | bracket name => trivial
  | command name =>
    rintro c hc
    cases hc
    rfl

theorem closer_notMem (hid : isIdentifier a = true) (h : Head) : h.closer ∉ a := by
  intro hmem
  have hchar := isIdentifierChar_of_mem hid hmem
  cases h <;> cases hchar

theorem isOrdinary_of_long (hid : isIdentifier a = true) (h : Head) :
    ∀ c ∈ h.bridge ++ (a ++ [h.closer]), isOrdinary c = true := by
  intro c hc
  have hends : ∀ c ∈ h.bridge ++ [h.closer], isOrdinary c = true := by
    cases h <;> simp [Head.bridge, Head.closer] <;> decide
  rcases List.mem_append.mp hc with hc | hc
  · exact hends c (List.mem_append_left _ hc)
  · rcases List.mem_append.mp hc with hc | hc
    · have hchar := isIdentifierChar_of_mem hid hc
      exact isOrdinary_iff.mpr ⟨ne_of_isIdentifierChar hchar (by decide),
        ne_of_isIdentifierChar hchar (by decide), ne_of_isIdentifierChar hchar (by decide)⟩
    · exact hends c (List.mem_append_right _ hc)

/-- A text closes no argument that is longer than what stands before its first closer. -/
theorem prefix_of_append_cons {x y t u : List Char} {c : Char} (hc : c ∉ x)
    (he : x ++ t = y ++ c :: u) : x <+: y := by
  rcases List.append_eq_append_iff.mp he with ⟨l, rfl, -⟩ | ⟨l, rfl, hl⟩
  · exact List.prefix_append x l
  · cases l with
    | nil => simp
    | cons d l =>
      rw [(List.cons.inj hl).1] at hc
      exact absurd (by simp) hc

theorem parse_write_long (hh : h.Valid) (hid : isIdentifier key.toList = true)
    (hlong : argumentLimit ≤ key.utf8ByteSize) :
    parse (h.write key) = [.unknown (String.ofList h.alone),
      .text (String.ofList (h.bridge ++ (key.toList ++ [h.closer])))] := by
  have hno : ∀ a t, h.Argument a →
      h.alone ++ (h.bridge ++ (key.toList ++ [h.closer])) ≠ h.opener ++ (a ++ h.closer :: t) := by
    intro a t ha he
    rw [← List.append_assoc, h.alone_append_bridge, List.append_cancel_left_eq] at he
    obtain ⟨l, rfl⟩ := prefix_of_append_cons (closer_notMem hid h) he
    have hshort : byteLength (key.toList ++ l) < argumentLimit := by
      cases h with
      | atSign | bracket name => exact BracketArgument.short ha
      | command name => exact BraceArgument.short ha
    rw [byteLength_append, byteLength_toList] at hshort
    omega
  have hb := Begins.unclosed hh (h.endsBefore_bridge _) hno
  have hne : h.bridge ++ (key.toList ++ [h.closer]) ≠ [] := by simp
  have hprose := lex_prose hne (isOrdinary_of_long hid h) []
  rw [List.append_nil, lex_nil] at hprose
  rw [← List.append_assoc, h.alone_append_bridge] at hb
  rw [parse_eq_lex, Head.write, String.toList_ofList,
    lex_of_begins_macros hb, hprose]
  rfl

/-! The limit -/

theorem parse_write_iff {t : Token} (hh : h.Valid) (hbegin : h ≠ .command "begin".toList)
    (hid : isIdentifier key.toList = true) (htoken : h.tokens key.toList = [t]) :
    parse (h.write key) = [t] ↔ key.utf8ByteSize < argumentLimit := by
  constructor
  · intro hparse
    by_contra hlong
    rw [parse_write_long hh hid (Nat.le_of_not_lt hlong)] at hparse
    cases hparse
  · intro hshort
    rw [parse_write_short hh hbegin hid hshort, htoken]

theorem valid_citing : ∀ h ∈ Head.citing, h.Valid ∧ h ≠ .command "begin".toList ∧
    (h.role = .key ∨ h.role = .keys) := by decide

theorem valid_referring : ∀ h ∈ Head.referring, h.Valid ∧ h ≠ .command "begin".toList ∧
    h.role = .target := by decide

/-- A macro of one key is that citation or that reference exactly if the key has fewer bytes than the
limit; from the limit on nothing in it refers to anything. -/
theorem parse_write (key : String) (hid : isIdentifier key.toList = true) :
    (∀ h ∈ Head.citing, parse (h.write key) = [.citation key (h.write key)] ↔
        key.utf8ByteSize < argumentLimit) ∧
      (∀ h ∈ Head.referring, parse (h.write key) = [.reference key (h.write key)] ↔
        key.utf8ByteSize < argumentLimit) ∧
      (argumentLimit ≤ key.utf8ByteSize → ∀ h ∈ Head.citing ++ Head.referring,
        ∃ opener rest, parse (h.write key) = [.unknown opener, .text rest]) := by
  refine ⟨?_, ?_, ?_⟩
  · intro h hmem
    obtain ⟨hh, hbegin, hrole⟩ := valid_citing h hmem
    apply parse_write_iff hh hbegin hid
    rw [Head.tokens, Role.tokens_citing hrole hid, String.ofList_toList]
    rfl
  · intro h hmem
    obtain ⟨hh, hbegin, hrole⟩ := valid_referring h hmem
    apply parse_write_iff hh hbegin hid
    rw [Head.tokens, hrole, Role.tokens_referring hid, String.ofList_toList]
    rfl
  · intro hlong h hmem
    have hh : h.Valid := by
      rcases List.mem_append.mp hmem with hmem | hmem
      · exact (valid_citing h hmem).1
      · exact (valid_referring h hmem).1
    exact ⟨_, _, parse_write_long hh hid hlong⟩

example : Head.citing.map (·.write "k") =
    ["[cite:k]", "[@k]", "\\cite\x7bk\x7d", "\\citep\x7bk\x7d", "\\citet\x7bk\x7d"] := by decide

example : Head.referring.map (·.write "k") =
    ["[ref:k]", "\\ref\x7bk\x7d", "\\eqref\x7bk\x7d", "\\autoref\x7bk\x7d"] := by decide

/-! One letter, written out over and over -/

theorem isIdentifier_replicate {n : Nat} {c : Char} (hn : n ≠ 0) (hc : isIdentifierChar c = true) :
    isIdentifier (String.ofList (List.replicate n c)).toList = true := by
  rw [String.toList_ofList, isIdentifier_iff]
  refine ⟨by simpa using hn, fun d hd => ?_⟩
  rw [List.eq_of_mem_replicate hd]
  simpa [isIdentifierChar] using hc

theorem utf8ByteSize_replicate (n : Nat) (c : Char) :
    (String.ofList (List.replicate n c)).utf8ByteSize = n * c.utf8Size := by
  rw [← byteLength_toList, String.toList_ofList, byteLength_replicate]

theorem parse_write_longest :
    let key := String.ofList (List.replicate 255 'k')
    isIdentifier key.toList = true ∧ key.utf8ByteSize = 255 ∧
      parse (Head.atSign.write key) = [.citation key (Head.atSign.write key)] := by
  intro key
  have hid : isIdentifier key.toList = true := isIdentifier_replicate (by decide) (by decide)
  have hsize : key.utf8ByteSize = 255 := utf8ByteSize_replicate 255 'k'
  refine ⟨hid, hsize, ?_⟩
  apply ((parse_write key hid).1 .atSign (by decide)).mpr
  rw [hsize]
  decide

/-- A key of as many bytes as the limit is not read, in any spelling. -/
theorem key_of_limit_unread :
    let key := String.ofList (List.replicate 256 'k')
    isIdentifier key.toList = true ∧ key.utf8ByteSize = argumentLimit ∧
      (∀ h ∈ Head.citing, parse (h.write key) ≠ [.citation key (h.write key)]) ∧
        ∀ h ∈ Head.referring, parse (h.write key) ≠ [.reference key (h.write key)] := by
  intro key
  have hid : isIdentifier key.toList = true := isIdentifier_replicate (by decide) (by decide)
  have hsize : key.utf8ByteSize = argumentLimit := utf8ByteSize_replicate 256 'k'
  have hunread : ∀ h : Head, h.Valid → ∀ t, parse (h.write key) ≠ [t] := by
    intro h hh t hparse
    rw [parse_write_long hh hid (Nat.le_of_eq hsize.symm)] at hparse
    cases hparse
  exact ⟨hid, hsize, fun h hmem => hunread h (valid_citing h hmem).1 _,
    fun h hmem => hunread h (valid_referring h hmem).1 _⟩

end Manuscript.Markup
