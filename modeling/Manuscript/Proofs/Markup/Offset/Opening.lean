import Manuscript.Proofs.Markup.Offset.Emission

/-! What each part of the byte lexer takes: the one for backslashes, for dollars and for brackets
follows the opening that the lexer along the characters finds there. -/
namespace Manuscript.Markup.Offset

open Manuscript.Text

variable {src pending opener name argument rest s : List Char} {st : State}
  {i j stop nameStop close : Nat} {absent : Fence → Option Nat}

theorem Pending.withAbsent (h : Pending src st pending rest) (absent : Fence → Option Nat) :
    Pending src { st with absent } pending rest :=
  ⟨h.text, h.pos_eq⟩

/-! Fences -/

theorem follows_fence_missing (f : Fence) (h : Pending src st pending (opener ++ rest))
    (habsent : KnownAbsent src absent) (hcut : cut f.closer rest = none)
    (hstop : stop = st.pos + byteLength opener) :
    Follows src st pending (emitUnknown src { st with absent } st.pos stop)
      (.fence f opener rest) := by
  have hraw := emitUnknown_eq (h.withAbsent absent) hstop
  refine ⟨absent, habsent, ?_⟩
  rw [hcut]
  simpa [Fence.close, Token.raw, hstop] using hraw

theorem follows_fence_found {tex after raw : List Char} {result : Checked State} (f : Fence)
    (habsent : KnownAbsent src absent) (hcut : cut f.closer rest = some (tex, after))
    (hraw : raw = opener ++ (tex ++ f.closer))
    (hresult : result = .ok ({ st with absent }.emitted pending
      [if allBlank tex then .unknown (String.ofList raw)
        else .math (String.ofList (if f.keepsDelimiters then raw else tex)) f.isInline
          (String.ofList raw)] (st.pos + byteLength raw))) :
    Follows src st pending result (.fence f opener rest) := by
  refine ⟨absent, habsent, ?_⟩
  rw [hresult, hcut]
  by_cases hblank : allBlank tex = true
  · simp only [Fence.close, if_pos hblank, ← hraw, Token.raw, String.toList_ofList]
  · simp only [Fence.close, if_neg hblank, ← hraw, Token.raw, String.toList_ofList]

theorem follows_lexFence (opener : List Char) (f : Fence) (h : Pending src st pending (opener ++ rest))
    (hknown : KnownAbsent src st.absent) (hopener : byteLength opener = 2)
    (hcloser : byteLength f.closer = 2) (hkeeps : f.keepsDelimiters = false) :
    Follows src st pending (lexFence src st f) (.fence f opener rest) := by
  have hbody : Starts src (st.pos + 2) rest := h.starts.after (by rw [hopener])
  obtain ⟨absent, habsent, hfind⟩ := findCached_eq f hbody hknown
  rw [lexFence, hfind]
  cases hcut : cut f.closer rest with
  | none => exact follows_fence_missing f h habsent hcut (by rw [hopener])
  | some found =>
    obtain ⟨tex, after⟩ := found
    rw [eq_of_cut hcut] at h
    have hlen : st.pos + 2 + byteLength tex + 2 =
        st.pos + byteLength (opener ++ (tex ++ f.closer)) := by
      rw [byteLength_append, byteLength_append]
      omega
    have hmath := emitMath_eq opener f.closer f.isInline (h.withAbsent absent) rfl
    rw [hopener, hcloser, ← hlen] at hmath
    apply follows_fence_found f habsent hcut rfl
    rw [← hlen, hkeeps]
    exact hmath

theorem follows_lexEnvironment (e : Environment) (h : Pending src st pending (opener ++ rest))
    (hknown : KnownAbsent src st.absent) (hi : i = st.pos + byteLength opener) :
    Follows src st pending (lexEnvironment src st st.pos i e)
      (.fence (.environment e) opener rest) := by
  obtain ⟨absent, habsent, hfind⟩ := findCached_eq (.environment e) (h.starts.after hi) hknown
  rw [lexEnvironment, hfind]
  cases hcut : cut (Fence.environment e).closer rest with
  | none => exact follows_fence_missing _ h habsent hcut hi
  | some found =>
    obtain ⟨tex, after⟩ := found
    rw [eq_of_cut hcut] at h
    have hraw := h.withAbsent absent
    rw [← List.append_assoc tex, ← List.append_assoc opener] at hraw
    have hlen : i + byteLength tex + byteLength (Fence.environment e).closer =
        st.pos + byteLength (opener ++ (tex ++ (Fence.environment e).closer)) := by
      rw [byteLength_append, byteLength_append]
      omega
    have htex : slice src i (i + byteLength tex) = .ok tex := slice_starts (h.starts.after hi) rfl
    have hslice : slice src st.pos (i + byteLength tex + byteLength (Fence.environment e).closer) =
        .ok (opener ++ (tex ++ (Fence.environment e).closer)) := slice_starts hraw.starts hlen
    apply follows_fence_found _ habsent hcut rfl
    rw [← hlen]
    generalize (Fence.environment e).closer = closer at *
    simp only [Option.map_some, htex, ok_bind]
    by_cases hblank : allBlank tex = true
    · rw [if_pos (trim_eq_nil_iff.mpr hblank), if_pos hblank]
      exact emitUnknown_eq hraw hlen
    · have htrim : trim tex ≠ [] := fun he => hblank (trim_eq_nil_iff.mp he)
      rw [if_neg htrim, if_neg hblank]
      -- an environment that is kept is cut out with its delimiters
      have hkept : (Fence.environment e).keepsDelimiters = e.keepsDelimiters := rfl
      cases hkeeps : e.keepsDelimiters with
      | false =>
        simp only [hkept, hkeeps, Bool.false_eq_true, if_false]
        rw [hslice, ok_bind]
        exact emit_eq hraw _ _
      | true =>
        simp only [hkept, hkeeps, if_true]
        rw [hslice, ok_bind, ok_bind]
        exact emit_eq hraw _ _

/-! Commands -/

theorem findGroup_brace (h : Starts src i ('{' :: s)) : findGroup src i =
    .ok ((braced argumentLimit 0 s).map fun found => i + 1 + byteLength found.1) := by
  rw [findGroup, if_pos ((h.peek_eq_ascii_iff (by decide)).mpr rfl)]
  exact findGroupClose_eq h.tail

theorem findGroup_none (h : Starts src i s) (hs : ∀ group, s ≠ '{' :: group) :
    findGroup src i = .ok none := by
  rw [findGroup, if_neg (h.peek_ne (by decide) hs)]

theorem follows_lexArgument
    (h : Pending src st pending ('\\' :: (name ++ '{' :: (argument ++ '}' :: rest))))
    (hknown : KnownAbsent src st.absent) (hname : nameStop = st.pos + 1 + byteLength name)
    (hclose : close = nameStop + 1 + byteLength argument) :
    Follows src st pending (lexArgument src st st.pos nameStop close name)
      (command name argument rest) := by
  have hsrc : Pending src st pending
      (('\\' :: (name ++ ['{'])) ++ (argument ++ (['}'] ++ rest))) := by simpa using h
  have hargument : nameStop + 1 = st.pos + byteLength ('\\' :: (name ++ ['{'])) := by
    simp [Char.utf8Size]
    omega
  have hstop : close + 1 = close + byteLength ['}'] := rfl
  have hraw : Pending src st pending
      (('\\' :: (name ++ ['{']) ++ (argument ++ ['}'])) ++ rest) := by simpa using h
  have hlen : close + 1 = st.pos + byteLength ('\\' :: (name ++ ['{']) ++ (argument ++ ['}'])) := by
    rw [byteLength_append, byteLength_append]
    omega
  simp only [lexArgument, command]
  by_cases hbegin : name = "begin".toList
  · rw [if_pos hbegin, if_pos hbegin, slice_starts (hsrc.starts.after hargument) hclose, ok_bind]
    cases Environment.named? argument with
    | none => exact follows_unknown _ hraw hlen
    | some e => exact follows_lexEnvironment e hraw hknown hlen
  · rw [if_neg hbegin, if_neg hbegin]
    by_cases hcite : isCiteCommand name = true
    · rw [if_pos hcite, if_pos hcite]
      exact follows_citations hsrc hargument hclose hstop
    · rw [if_neg hcite, if_neg hcite]
      by_cases href : isRefCommand name = true
      · rw [if_pos href, if_pos href]
        exact follows_reference hsrc hargument hclose hstop
      · rw [if_neg href, if_neg href]
        exact follows_unknown _ hraw hlen

theorem follows_lexCommand (h : Pending src st pending ('\\' :: s))
    (hknown : KnownAbsent src st.absent) :
    Follows src st pending (lexCommand src st st.pos) (named s) := by
  have hsplit : s.takeWhile isLetter ++ s.dropWhile isLetter = s := List.takeWhile_append_dropWhile
  have hs : Starts src (st.pos + 1) s := h.starts.tail
  simp only [lexCommand, named, skipLetters_eq hs, ok_bind]
  generalize s.takeWhile isLetter = name at hsplit ⊢
  generalize s.dropWhile isLetter = tail at hsplit ⊢
  subst hsplit
  have hlen : st.pos + 1 + byteLength name = st.pos + byteLength ('\\' :: name) := by
    simp [Char.utf8Size, Nat.add_assoc]
  have htail : Starts src (st.pos + 1 + byteLength name) tail := hs.after rfl
  rw [slice_starts hs rfl, ok_bind]
  split
  · rename_i group
    rw [findGroup_brace htail, ok_bind]
    cases hgroup : braced argumentLimit 0 group with
    | none => exact follows_unknown _ h hlen
    | some found =>
      obtain ⟨argument, rest⟩ := found
      rw [eq_of_braced hgroup] at h
      exact follows_lexArgument h hknown rfl rfl
  · rename_i hbrace
    rw [findGroup_none htail fun group hg => hbrace group hg, ok_bind]
    exact follows_unknown _ h hlen

theorem follows_lexBackslash (h : Pending src st pending ('\\' :: s))
    (hknown : KnownAbsent src st.absent) :
    Follows src st pending (lexBackslash src st) (backslash s) := by
  have hs : Starts src (st.pos + 1) s := h.starts.tail
  cases s with
  | nil =>
    rw [lexBackslash, hs.peek_nil]
    exact follows_unknown ['\\'] h rfl
  | cons c s =>
    obtain ⟨b, hpeek, _, hlead⟩ := hs.byteAt
    simp only [lexBackslash, hpeek, backslash, hlead.isLetterByte,
      hlead.eq_ascii_iff (d := '$') (by decide), hlead.eq_ascii_iff (d := '(') (by decide),
      hlead.eq_ascii_iff (d := '[') (by decide)]
    by_cases hdollar : c = '$'
    · rw [if_pos hdollar, if_pos hdollar]
      rfl
    · rw [if_neg hdollar, if_neg hdollar]
      by_cases hparen : c = '('
      · rw [if_pos hparen, if_pos hparen]
        subst hparen
        exact follows_lexFence ['\\', '('] .paren h hknown rfl rfl rfl
      · rw [if_neg hparen, if_neg hparen]
        by_cases hbracket : c = '['
        · rw [if_pos hbracket, if_pos hbracket]
          subst hbracket
          exact follows_lexFence ['\\', '['] .bracket h hknown rfl rfl rfl
        · rw [if_neg hbracket, if_neg hbracket]
          by_cases hletter : isLetter c = true
          · rw [if_pos hletter, if_pos hletter]
            exact follows_lexCommand h hknown
          · -- the character after the backslash may have several bytes, and all are taken
            rw [if_neg hletter, if_neg hletter, sliceFrom_eq_ok_iff.mpr hs, ok_bind]
            apply follows_unknown ['\\', c] h
            simp [Char.utf8Size, Nat.add_assoc]

/-! Dollars -/

theorem dollar_of_ne (hs : ∀ t, s ≠ '$' :: t) : dollar s =
    match untilDollar s with
    | some (tex, rest) =>
      if allBlank tex then .unknown ('$' :: (tex ++ ['$'])) rest
      else .macros [.math (String.ofList tex) true (String.ofList ('$' :: (tex ++ ['$'])))] rest
    | none => .unknown ['$'] s := by
  unfold dollar
  split
  · rename_i t
    exact absurd rfl (hs t)
  · rfl

theorem follows_lexDollar (h : Pending src st pending ('$' :: s))
    (hknown : KnownAbsent src st.absent) :
    Follows src st pending (lexDollar src st) (dollar s) := by
  have hs : Starts src (st.pos + 1) s := h.starts.tail
  by_cases hdouble : ∃ t, s = '$' :: t
  · obtain ⟨t, rfl⟩ := hdouble
    rw [lexDollar, if_pos ((hs.peek_eq_ascii_iff (by decide)).mpr rfl)]
    exact follows_lexFence ['$', '$'] .dollars h hknown rfl rfl rfl
  · have hne : ∀ t, s ≠ '$' :: t := fun t ht => hdouble ⟨t, ht⟩
    have hfind : findInlineDollar src (st.pos + 1) = _ := seek_dollar hs
    rw [lexDollar, if_neg (hs.peek_ne (by decide) hne), hfind, ok_bind, dollar_of_ne hne]
    cases hclose : untilDollar s with
    | none => exact follows_unknown ['$'] h rfl
    | some found =>
      obtain ⟨tex, rest⟩ := found
      rw [eq_of_untilDollar hclose] at h
      have hlen : st.pos + 1 + byteLength tex + 1 =
          st.pos + byteLength ('$' :: (tex ++ ['$'])) := by
        simp [Char.utf8Size]
        omega
      have hmath : emitMath src st st.pos (st.pos + 1 + byteLength tex + 1) 1 1 true = _ :=
        emitMath_eq ['$'] ['$'] true h hlen
      simp only [Option.map_some, hmath]
      by_cases hblank : allBlank tex = true
      · rw [if_pos hblank, if_pos hblank, hlen]
        simp [Follows, Opening.unknown, Token.raw]
      · rw [if_neg hblank, if_neg hblank, hlen]
        simp [Follows, Token.raw]

/-! Brackets -/

theorem follows_lexAt (h : Pending src st pending ('[' :: '@' :: s)) :
    Follows src st pending (lexAt src st st.pos) (atCitation s) := by
  have hs : Starts src (st.pos + 2) s := h.starts.tail.tail
  rw [lexAt, findBracketClose_eq hs, ok_bind, atCitation]
  cases hclose : bracketed argumentLimit s with
  | none => exact follows_unknown ['[', '@'] h rfl
  | some found =>
    obtain ⟨argument, rest⟩ := found
    rw [eq_of_bracketed hclose] at h hs
    have hraw : Pending src st pending (('[' :: '@' :: (argument ++ [']'])) ++ rest) := by
      simpa using h
    have hlen : st.pos + 2 + byteLength argument + 1 =
        st.pos + byteLength ('[' :: '@' :: (argument ++ [']'])) := by
      simp [Char.utf8Size]
      omega
    simp only [Option.map_some, slice_starts hs rfl, ok_bind]
    by_cases hid : isIdentifier (trim argument) = true
    · rw [if_pos hid, if_pos hid, slice_starts hraw.starts hlen, ok_bind, emit_eq hraw, hlen]
      simp [Follows, Token.raw]
    · rw [if_neg hid, if_neg hid]
      exact follows_unknown _ hraw hlen

theorem follows_lexMacro (h : Pending src st pending ('[' :: (name ++ ':' :: s)))
    (hi : i = st.pos + 1 + byteLength name) :
    Follows src st pending (lexMacro src st st.pos i) (bracketMacro name s) := by
  have hname : Starts src (st.pos + 1) (name ++ ':' :: s) := h.starts.tail
  have hs : Starts src (i + 1) s := (hname.after hi).tail
  have hopener : i + 1 = st.pos + byteLength ('[' :: (name ++ [':'])) := by
    simp [Char.utf8Size]
    omega
  have hunclosed : Pending src st pending (('[' :: (name ++ [':'])) ++ s) := by simpa using h
  simp only [lexMacro, findBracketClose_eq hs, ok_bind, bracketMacro]
  cases hclose : bracketed argumentLimit s with
  | none => exact follows_unknown _ hunclosed hopener
  | some found =>
    obtain ⟨argument, rest⟩ := found
    rw [eq_of_bracketed hclose] at hunclosed
    have hraw : Pending src st pending
        (('[' :: (name ++ [':']) ++ (argument ++ [']'])) ++ rest) := by simpa using hunclosed
    have hstop : i + 1 + byteLength argument + 1 =
        i + 1 + byteLength argument + byteLength [']'] := rfl
    have hlen : i + 1 + byteLength argument + 1 =
        st.pos + byteLength ('[' :: (name ++ [':']) ++ (argument ++ [']'])) := by
      rw [byteLength_append, byteLength_append]
      omega
    simp only [Option.map_some, slice_starts hname hi, ok_bind]
    by_cases hcite : name = "cite".toList
    · rw [if_pos hcite, if_pos hcite]
      exact follows_citations hunclosed hopener rfl hstop
    · rw [if_neg hcite, if_neg hcite]
      by_cases href : name = "ref".toList
      · rw [if_pos href, if_pos href]
        exact follows_reference hunclosed hopener rfl hstop
      · rw [if_neg href, if_neg href]
        exact follows_unknown _ hraw hlen

def passing (st : State) (consumed : Checked (Option State)) : Checked State :=
  consumed.map fun found => found.getD { st with pos := st.pos + 1 }

theorem passing_some (result : Checked State) : passing st (result.map some) = result := by
  cases result <;> rfl

theorem bracket_eq_macro {r : List Char} (hs : ∀ r, s ≠ '@' :: r)
    (hcolon : s.dropWhile isLetter = ':' :: r) (hname : s.takeWhile isLetter ≠ [])
    (hlen : (s.takeWhile isLetter).length ≤ argumentLimit) :
    bracket s = bracketMacro (s.takeWhile isLetter) r := by
  rw [bracket]
  · simp only [hcolon, if_pos (And.intro hname hlen)]
  · exact hs

theorem bracket_eq_prose (hs : ∀ r, s ≠ '@' :: r)
    (h : ∀ r, s.dropWhile isLetter = ':' :: r →
      ¬ (s.takeWhile isLetter ≠ [] ∧ (s.takeWhile isLetter).length ≤ argumentLimit)) :
    bracket s = .prose ['['] s := by
  rw [bracket]
  · split
    · rename_i r hcolon
      exact if_neg (h r hcolon)
    · rfl
  · exact hs

theorem follows_prose (s : List Char) :
    Follows src st pending (passing st (.ok none)) (.prose ['['] s) :=
  rfl

theorem follows_lexNamedBracket (h : Pending src st pending ('[' :: s)) (hs : ∀ r, s ≠ '@' :: r)
    (hname : s.takeWhile isLetter ≠ []) :
    Follows src st pending (passing st (lexNamedBracket src st st.pos)) (bracket s) := by
  have hsplit : s.takeWhile isLetter ++ s.dropWhile isLetter = s := List.takeWhile_append_dropWhile
  have hlen := byteLength_takeWhile_isLetter s
  have hstart : Starts src (st.pos + 1) s := h.starts.tail
  have hlimit : min (st.pos + 1 + argumentLimit) (byteLength src) - (st.pos + 1) =
      min argumentLimit (byteLength s) := by
    rw [hstart.byteLength_eq]
    omega
  rw [lexNamedBracket, skipLetters_starts hstart hlimit, ok_bind]
  by_cases hlong : (s.takeWhile isLetter).length ≤ argumentLimit
  · have htail : Starts src (st.pos + 1 + (s.takeWhile isLetter).length) (s.dropWhile isLetter) :=
      Starts.after (a := s.takeWhile isLetter) (by rwa [hsplit]) (by rw [hlen])
    rw [Nat.min_eq_right hlong]
    by_cases hcolon : ∃ r, s.dropWhile isLetter = ':' :: r
    · obtain ⟨r, hr⟩ := hcolon
      rw [hr] at htail
      rw [if_pos ((htail.peek_eq_ascii_iff (by decide)).mpr rfl), passing_some,
        bracket_eq_macro hs hr hname hlong]
      rw [← hsplit, hr] at h
      exact follows_lexMacro h (by rw [hlen])
    · have hne : ∀ r, s.dropWhile isLetter ≠ ':' :: r := fun r hr => hcolon ⟨r, hr⟩
      rw [if_neg (htail.peek_ne (by decide) hne),
        bracket_eq_prose hs fun r hr => absurd hr (hne r)]
      exact follows_prose s
  · have hcut : argumentLimit < (s.takeWhile isLetter).length := Nat.lt_of_not_le hlong
    have hne := peek_ne_of_lt_name (d := ':') hstart hcut (by decide) (by decide)
    rw [Nat.min_eq_left (Nat.le_of_lt hcut), if_neg hne,
      bracket_eq_prose hs fun r hr hshort => hlong hshort.2]
    exact follows_prose s

theorem follows_lexBracket (h : Pending src st pending ('[' :: s)) :
    Follows src st pending (passing st (lexBracket src st)) (bracket s) := by
  have hs : Starts src (st.pos + 1) s := h.starts.tail
  cases s with
  | nil =>
    rw [lexBracket, hs.peek_nil]
    exact follows_prose []
  | cons c s =>
    obtain ⟨b, hpeek, _, hlead⟩ := hs.byteAt
    simp only [lexBracket, hpeek, hlead.isLetterByte, hlead.eq_ascii_iff (d := '@') (by decide)]
    by_cases hat : c = '@'
    · subst hat
      rw [if_pos rfl, passing_some]
      exact follows_lexAt h
    · have hne : ∀ r, c :: s ≠ '@' :: r := fun r hr => hat (List.cons.inj hr).1
      rw [if_neg hat]
      by_cases hletter : isLetter c = true
      · rw [if_pos hletter]
        apply follows_lexNamedBracket h hne
        rw [List.takeWhile_cons_of_pos hletter]
        nofun
      · have hname : (c :: s).takeWhile isLetter = [] := List.takeWhile_cons_of_neg hletter
        rw [if_neg hletter, bracket_eq_prose hne fun r hr hshort => hshort.1 hname]
        exact follows_prose (c :: s)

end Manuscript.Markup.Offset
