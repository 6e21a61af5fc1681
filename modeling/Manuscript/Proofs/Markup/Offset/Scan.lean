import Manuscript.Proofs.Markup.Offset.Checked
import Manuscript.Markup.Argument

/-! Searches along the bytes of a text. They look at single bytes and may stop or start inside a
character. Main statements: bytes outside ASCII are passed over, so each search finds the closer that
the search along the characters finds. -/
namespace Manuscript.Markup.Offset

open Manuscript.Text

def ascii (c : Char) : UInt8 := UInt8.ofNat c.toNat

def isLetterByte (b : UInt8) : Bool :=
  (65 ≤ b.toNat && b.toNat ≤ 90) || (97 ≤ b.toNat && b.toNat ≤ 122)

/-- What a search does at a byte; `ahead` goes on behind the byte and so many more. -/
inductive Verdict (σ : Type)
  | found
  | absent
  | ahead (extra : Nat) (state : σ)

def seek {σ : Type} (test : σ → UInt8 → Checked (Verdict σ)) (src : List Char) (limit : Nat)
    (state : σ) (i : Nat) : Checked (Option Nat) :=
  if i < limit then do
    let b ← byteAt src i
    match ← test state b with
    | .found => .ok (some i)
    | .absent => .ok none
    | .ahead extra state => seek test src limit state (i + 1 + extra)
  else .ok none
termination_by limit - i

def bracketTest (_ : Unit) (b : UInt8) : Checked (Verdict Unit) :=
  if b = ascii '\n' ∨ b = ascii '[' then .ok .absent
  else if b = ascii ']' then .ok .found
  else .ok (.ahead 0 ())

def groupTest (depth : Nat) (b : UInt8) : Checked (Verdict Nat) :=
  if b = ascii '\n' then .ok .absent
  else if b = ascii '{' then .ok (.ahead 0 (depth + 1))
  else if b = ascii '}' then
    if depth = 0 then .ok .found
    else do
      let outer ← difference depth 1
      .ok (.ahead 0 outer)
  else .ok (.ahead 0 depth)

/-- The byte after a backslash is passed over, which may be the first of several of a character. -/
def dollarTest (_ : Unit) (b : UInt8) : Checked (Verdict Unit) :=
  if b = ascii '\\' then .ok (.ahead 1 ())
  else if b = ascii '\n' then .ok .absent
  else if b = ascii '$' then .ok .found
  else .ok (.ahead 0 ())

def findBracketClose (src : List Char) (start : Nat) : Checked (Option Nat) :=
  seek bracketTest src (min (start + argumentLimit) (byteLength src)) () start

def findGroupClose (src : List Char) (start : Nat) : Checked (Option Nat) :=
  seek groupTest src (min (start + argumentLimit) (byteLength src)) 0 start

def findInlineDollar (src : List Char) (start : Nat) : Checked (Option Nat) :=
  seek dollarTest src (byteLength src) () start

def skipLetters (src : List Char) (limit i : Nat) : Checked Nat :=
  if i < limit then do
    let b ← byteAt src i
    if isLetterByte b then skipLetters src limit (i + 1) else .ok i
  else .ok i
termination_by limit - i

/-! Bytes of characters -/

variable {src s a : List Char} {c d : Char} {b : UInt8} {i j limit budget : Nat}

def Leads (b : UInt8) (c : Char) : Prop :=
  (c.toNat < 128 ∧ b = ascii c) ∨ (128 ≤ c.toNat ∧ 128 ≤ b.toNat)

theorem toNat_ascii (h : c.toNat < 128) : (ascii c).toNat = c.toNat := by
  rw [ascii, UInt8.toNat_ofNat']
  omega

theorem Leads.eq_ascii_iff (h : Leads b c) (hd : d.toNat < 128) : b = ascii d ↔ c = d := by
  rcases h with ⟨hc, rfl⟩ | ⟨hc, hb⟩
  · constructor
    · intro he
      have := congrArg UInt8.toNat he
      rw [toNat_ascii hc, toNat_ascii hd] at this
      exact Char.toNat_inj.mp this
    · rintro rfl
      rfl
  · constructor
    · rintro rfl
      rw [toNat_ascii hd] at hb
      omega
    · rintro rfl
      omega

theorem toNat_lt_of_isLetter (h : isLetter c = true) : c.toNat < 128 := by
  simp only [isLetter, Bool.or_eq_true, Bool.and_eq_true, decide_eq_true_eq] at h
  omega

theorem Leads.isLetterByte (h : Leads b c) : isLetterByte b = isLetter c := by
  rcases h with ⟨hc, rfl⟩ | ⟨hc, hb⟩
  · rw [Offset.isLetterByte, isLetter, toNat_ascii hc]
  · rw [Bool.eq_iff_iff]
    simp only [Offset.isLetterByte, isLetter, Bool.or_eq_true, Bool.and_eq_true, decide_eq_true_eq]
    omega

theorem byteAt_of_peek (h : peek src i = some b) : byteAt src i = .ok b := by
  rw [byteAt, h]

theorem Starts.byteAt (h : Starts src i (c :: s)) :
    ∃ b, peek src i = some b ∧ byteAt src i = .ok b ∧ Leads b c := by
  have hpeek := peek_starts h 0
  rw [bytes_cons, Nat.add_zero] at hpeek
  by_cases hc : c.toNat < 128
  · rw [utf8EncodeChar_of_ascii hc] at hpeek
    exact ⟨ascii c, hpeek, byteAt_of_peek hpeek, Or.inl ⟨hc, rfl⟩⟩
  · cases he : String.utf8EncodeChar c with
    | nil => exact absurd he String.utf8EncodeChar_ne_nil
    | cons b bs =>
      rw [he] at hpeek
      have hb : 128 ≤ b.toNat :=
        high_of_mem_utf8EncodeChar (Nat.le_of_not_lt hc) (by rw [he]; exact List.mem_cons_self)
      exact ⟨b, hpeek, byteAt_of_peek hpeek, Or.inr ⟨Nat.le_of_not_lt hc, hb⟩⟩

theorem Starts.peek_eq_ascii_iff (h : Starts src i (c :: s)) (hd : d.toNat < 128) :
    peek src i = some (ascii d) ↔ c = d := by
  obtain ⟨b, hpeek, _, hlead⟩ := h.byteAt
  rw [hpeek, Option.some.injEq, hlead.eq_ascii_iff hd]

theorem Starts.peek_ne (h : Starts src i s) (hd : d.toNat < 128) (hs : ∀ t, s ≠ d :: t) :
    peek src i ≠ some (ascii d) := by
  cases s with
  | nil =>
    rw [h.peek_nil]
    nofun
  | cons c s =>
    intro hp
    have hc := (h.peek_eq_ascii_iff hd).mp hp
    exact hs s (by rw [hc])

def High (src : List Char) (i j : Nat) : Prop :=
  ∀ k, i ≤ k → k < j → ∃ b, byteAt src k = .ok b ∧ 128 ≤ b.toNat

theorem Starts.high (h : Starts src i (c :: s)) : High src (i + 1) (i + c.utf8Size) := by
  intro k hik hkj
  by_cases hc : c.toNat < 128
  · have := utf8Size_of_ascii hc
    omega
  · have hlen : k - i < (String.utf8EncodeChar c).length := by
      rw [String.length_utf8EncodeChar]
      omega
    have hpeek := peek_starts h (k - i)
    rw [bytes_cons, List.getElem?_append_left hlen, List.getElem?_eq_getElem hlen] at hpeek
    have hk : i + (k - i) = k := by omega
    rw [hk] at hpeek
    refine ⟨(String.utf8EncodeChar c)[k - i], byteAt_of_peek hpeek, ?_⟩
    exact high_of_mem_utf8EncodeChar (Nat.le_of_not_lt hc) (List.getElem_mem hlen)

theorem ne_ascii_of_high (hb : 128 ≤ b.toNat) (hd : d.toNat < 128) : b ≠ ascii d := by
  rintro rfl
  rw [toNat_ascii hd] at hb
  omega

/-! Searches -/

section Seek

variable {σ : Type} {test : σ → UInt8 → Checked (Verdict σ)} {state next : σ}

theorem seek_end (h : limit ≤ i) : seek test src limit state i = .ok none := by
  rw [seek, if_neg (Nat.not_lt_of_le h)]

/-- A search that passes over bytes above ASCII may leave them out. -/
theorem seek_high (htest : ∀ b, 128 ≤ b.toNat → test state b = .ok (.ahead 0 state))
    (h : High src i j) (hij : i ≤ j) :
    seek test src limit state i = seek test src limit state j := by
  obtain ⟨n, rfl⟩ := Nat.exists_eq_add_of_le hij
  induction n generalizing i with
  | zero => rfl
  | succ n ih =>
    have htail : High src (i + 1) (i + 1 + n) := fun k hk hkj => h k (by omega) (by omega)
    have hend : i + 1 + n = i + (n + 1) := by omega
    have hrest := ih htail (by omega)
    rw [hend] at hrest
    rw [← hrest]
    by_cases hlt : i < limit
    · obtain ⟨b, hb, hhigh⟩ := h i (by omega) (by omega)
      rw [seek, if_pos hlt, hb, ok_bind, htest b hhigh, ok_bind]
    · rw [seek_end (Nat.le_of_not_lt hlt), seek_end (by omega)]

theorem seek_found (h : Starts src i (c :: s)) (hlt : i < limit)
    (htest : ∀ b, Leads b c → test state b = .ok .found) :
    seek test src limit state i = .ok (some i) := by
  obtain ⟨b, _, hb, hlead⟩ := h.byteAt
  rw [seek, if_pos hlt, hb, ok_bind, htest b hlead, ok_bind]

theorem seek_absent (h : Starts src i (c :: s)) (hlt : i < limit)
    (htest : ∀ b, Leads b c → test state b = .ok .absent) :
    seek test src limit state i = .ok none := by
  obtain ⟨b, _, hb, hlead⟩ := h.byteAt
  rw [seek, if_pos hlt, hb, ok_bind, htest b hlead, ok_bind]

theorem seek_ahead (h : Starts src i (c :: s)) (hlt : i < limit)
    (htest : ∀ b, Leads b c → test state b = .ok (.ahead 0 next))
    (hhigh : ∀ b, 128 ≤ b.toNat → test next b = .ok (.ahead 0 next)) :
    seek test src limit state i = seek test src limit next (i + c.utf8Size) := by
  have hc := c.utf8Size_pos
  obtain ⟨b, _, hb, hlead⟩ := h.byteAt
  rw [seek, if_pos hlt, hb, ok_bind, htest b hlead, ok_bind]
  exact seek_high hhigh h.high (by omega)

end Seek

theorem bracketTest_high (b : UInt8) (hb : 128 ≤ b.toNat) :
    bracketTest () b = .ok (.ahead 0 ()) := by
  simp [bracketTest, ne_ascii_of_high hb]

theorem groupTest_high (depth : Nat) (b : UInt8) (hb : 128 ≤ b.toNat) :
    groupTest depth b = .ok (.ahead 0 depth) := by
  simp [groupTest, ne_ascii_of_high hb]

theorem dollarTest_high (b : UInt8) (hb : 128 ≤ b.toNat) :
    dollarTest () b = .ok (.ahead 0 ()) := by
  simp [dollarTest, ne_ascii_of_high hb]

theorem bracketTest_leads (hlead : Leads b c) : bracketTest () b =
    if c = '\n' ∨ c = '[' then .ok .absent
    else if c = ']' then .ok .found else .ok (.ahead 0 ()) := by
  simp only [bracketTest, hlead.eq_ascii_iff (d := '\n') (by decide),
    hlead.eq_ascii_iff (d := '[') (by decide), hlead.eq_ascii_iff (d := ']') (by decide)]

theorem groupTest_leads (depth : Nat) (hlead : Leads b c) : groupTest depth b =
    if c = '\n' then .ok .absent
    else if c = '}' ∧ depth = 0 then .ok .found
    else .ok (.ahead 0 (if c = '{' then depth + 1 else if c = '}' then depth - 1 else depth)) := by
  simp only [groupTest, hlead.eq_ascii_iff (d := '\n') (by decide),
    hlead.eq_ascii_iff (d := '{') (by decide), hlead.eq_ascii_iff (d := '}') (by decide)]
  by_cases hclose : c = '}'
  · by_cases hdepth : depth = 0
    · simp [hclose, hdepth]
    · -- a group inside the argument ends, so the depth can be taken down
      have hdiff : difference depth 1 = .ok (depth - 1) := if_pos (Nat.pos_of_ne_zero hdepth)
      simp [hclose, hdepth, hdiff]
  · by_cases hopen : c = '{'
    · simp [hopen]
    · simp [hopen, hclose]

theorem dollarTest_leads (hlead : Leads b c) : dollarTest () b =
    if c = '\\' then .ok (.ahead 1 ()) else if c = '\n' then .ok .absent
    else if c = '$' then .ok .found else .ok (.ahead 0 ()) := by
  simp only [dollarTest, hlead.eq_ascii_iff (d := '\\') (by decide),
    hlead.eq_ascii_iff (d := '\n') (by decide), hlead.eq_ascii_iff (d := '$') (by decide)]

theorem seek_bracket (h : Starts src i s) (hlimit : limit - i = min budget (byteLength s)) :
    seek bracketTest src limit () i =
      .ok ((bracketed budget s).map fun found => i + byteLength found.1) := by
  induction s generalizing i budget with
  | nil =>
    rw [byteLength_nil] at hlimit
    exact seek_end (by omega)
  | cons c s ih =>
    have hc := c.utf8Size_pos
    rw [byteLength_cons] at hlimit
    by_cases hbudget : budget = 0
    · rw [bracketed, if_pos (Or.inl hbudget)]
      exact seek_end (by omega)
    · have hlt : i < limit := by omega
      have hleft : limit - (i + c.utf8Size) = min (budget - c.utf8Size) (byteLength s) := by omega
      by_cases hend : c = '\n' ∨ c = '['
      · rw [seek_absent h hlt fun b hb => by rw [bracketTest_leads hb, if_pos hend]]
        simp [bracketed, hend]
      · by_cases hclose : c = ']'
        · rw [seek_found h hlt fun b hb => by rw [bracketTest_leads hb, if_neg hend, if_pos hclose]]
          simp [bracketed, hbudget, hclose]
        · have htest : ∀ b, Leads b c → bracketTest () b = .ok (.ahead 0 ()) :=
            fun b hb => by rw [bracketTest_leads hb, if_neg hend, if_neg hclose]
          rw [seek_ahead h hlt htest bracketTest_high, ih h.tail hleft]
          cases hb : bracketed (budget - c.utf8Size) s <;>
            simp [bracketed, hbudget, hend, hclose, hb, Nat.add_assoc]

theorem seek_group (depth : Nat) (h : Starts src i s)
    (hlimit : limit - i = min budget (byteLength s)) :
    seek groupTest src limit depth i =
      .ok ((braced budget depth s).map fun found => i + byteLength found.1) := by
  induction s generalizing i budget depth with
  | nil =>
    rw [byteLength_nil] at hlimit
    exact seek_end (by omega)
  | cons c s ih =>
    have hc := c.utf8Size_pos
    rw [byteLength_cons] at hlimit
    by_cases hbudget : budget = 0
    · rw [braced, if_pos (Or.inl hbudget)]
      exact seek_end (by omega)
    · have hlt : i < limit := by omega
      have hleft : limit - (i + c.utf8Size) = min (budget - c.utf8Size) (byteLength s) := by omega
      by_cases hend : c = '\n'
      · rw [seek_absent h hlt fun b hb => by rw [groupTest_leads depth hb, if_pos hend]]
        simp [braced, hend]
      · by_cases hclose : c = '}' ∧ depth = 0
        · rw [seek_found h hlt fun b hb => by
            rw [groupTest_leads depth hb, if_neg hend, if_pos hclose]]
          simp [braced, hbudget, hclose]
        · have htest : ∀ b, Leads b c → groupTest depth b = .ok (.ahead 0
              (if c = '{' then depth + 1 else if c = '}' then depth - 1 else depth)) :=
            fun b hb => by rw [groupTest_leads depth hb, if_neg hend, if_neg hclose]
          rw [seek_ahead h hlt htest (groupTest_high _), ih _ h.tail hleft, braced,
            if_neg (not_or.mpr ⟨hbudget, hend⟩), if_neg hclose]
          cases hb : braced (budget - c.utf8Size)
              (if c = '{' then depth + 1 else if c = '}' then depth - 1 else depth) s <;>
            simp [hb, Nat.add_assoc]

/-- Behind a backslash the search skips one byte, and the rest of that character is passed over. -/
theorem seek_dollar_escaped (h : Starts src i ('\\' :: c :: s)) :
    seek dollarTest src (byteLength src) () i =
      seek dollarTest src (byteLength src) () (i + '\\'.utf8Size + c.utf8Size) := by
  have hc := c.utf8Size_pos
  obtain ⟨b, _, hb, hlead⟩ := h.byteAt
  rw [seek, if_pos h.lt_of_cons, hb, ok_bind, dollarTest_leads hlead, if_pos rfl, ok_bind]
  exact seek_high dollarTest_high h.tail.high (Nat.add_le_add_left hc _)

theorem seek_dollar_passed (h : Starts src i (c :: s)) (hlast : c = '\\' → s = [] → False)
    (hback : ∀ d r, c = '\\' → s = d :: r → False) (hend : c ≠ '\n') (hclose : c ≠ '$') :
    seek dollarTest src (byteLength src) () i =
      seek dollarTest src (byteLength src) () (i + c.utf8Size) := by
  have hne : c ≠ '\\' := by
    intro hc
    cases s with
    | nil => exact hlast hc rfl
    | cons d s => exact hback d s hc rfl
  have htest : ∀ b, Leads b c → dollarTest () b = .ok (.ahead 0 ()) := fun b hb => by
    rw [dollarTest_leads hb, if_neg hne, if_neg hend, if_neg hclose]
  exact seek_ahead h h.lt_of_cons htest dollarTest_high

theorem seek_dollar (h : Starts src i s) :
    seek dollarTest src (byteLength src) () i =
      .ok ((untilDollar s).map fun found => i + byteLength found.1) := by
  fun_induction untilDollar s generalizing i with
  | case1 => exact seek_end (Nat.le_of_eq h.byteLength_eq)
  | case2 =>
    -- a backslash ends the text, so the search goes on behind its end
    obtain ⟨b, _, hb, hlead⟩ := h.byteAt
    have hlen : byteLength src = i + 1 := h.byteLength_eq
    rw [seek, if_pos h.lt_of_cons, hb, ok_bind, dollarTest_leads hlead, if_pos rfl, ok_bind]
    exact seek_end (by omega)
  | case3 c s a r he ih =>
    rw [seek_dollar_escaped h, ih h.tail.tail, he]
    simp [Nat.add_assoc]
  | case4 c s he ih =>
    rw [seek_dollar_escaped h, ih h.tail.tail, he]
    rfl
  | case5 s hlast hback => exact seek_absent h h.lt_of_cons fun b hb => dollarTest_leads hb
  | case6 s hlast hback hend => exact seek_found h h.lt_of_cons fun b hb => dollarTest_leads hb
  | case7 c s hlast hback hend hclose a r he ih =>
    rw [seek_dollar_passed h hlast hback hend hclose, ih h.tail, he]
    simp [Nat.add_assoc]
  | case8 c s hlast hback hend hclose he ih =>
    rw [seek_dollar_passed h hlast hback hend hclose, ih h.tail, he]
    rfl

theorem skipLetters_starts (h : Starts src i s)
    (hlimit : limit - i = min budget (byteLength s)) :
    skipLetters src limit i = .ok (i + min budget (s.takeWhile isLetter).length) := by
  induction s generalizing i budget with
  | nil =>
    rw [skipLetters, if_neg (by simp at hlimit; omega)]
    simp
  | cons c s ih =>
    have hc := c.utf8Size_pos
    rw [byteLength_cons] at hlimit
    by_cases hbudget : budget = 0
    · rw [skipLetters, if_neg (by omega), hbudget]
      simp
    · obtain ⟨b, _, hb, hlead⟩ := h.byteAt
      rw [skipLetters, if_pos (by omega), hb, ok_bind, hlead.isLetterByte]
      by_cases hletter : isLetter c = true
      · have hsize : c.utf8Size = 1 := utf8Size_of_ascii (toNat_lt_of_isLetter hletter)
        have hleft : limit - (i + c.utf8Size) = min (budget - 1) (byteLength s) := by omega
        have hrest := ih h.tail hleft
        rw [hsize] at hrest
        rw [if_pos hletter, hrest, List.takeWhile_cons_of_pos hletter, List.length_cons]
        congr 1
        omega
      · rw [if_neg hletter, List.takeWhile_cons_of_neg hletter]
        simp

theorem findBracketClose_eq (h : Starts src i s) : findBracketClose src i =
    .ok ((bracketed argumentLimit s).map fun found => i + byteLength found.1) := by
  apply seek_bracket h
  rw [h.byteLength_eq]
  omega

theorem findGroupClose_eq (h : Starts src i s) : findGroupClose src i =
    .ok ((braced argumentLimit 0 s).map fun found => i + byteLength found.1) := by
  apply seek_group 0 h
  rw [h.byteLength_eq]
  omega

theorem byteLength_of_letters (h : ∀ c ∈ a, isLetter c = true) : byteLength a = a.length := by
  induction a with
  | nil => rfl
  | cons c a ih =>
    obtain ⟨hc, ha⟩ := List.forall_mem_cons.mp h
    rw [byteLength_cons, List.length_cons, ih ha, utf8Size_of_ascii (toNat_lt_of_isLetter hc),
      Nat.add_comm]

theorem byteLength_takeWhile_isLetter (s : List Char) :
    byteLength (s.takeWhile isLetter) = (s.takeWhile isLetter).length :=
  byteLength_of_letters (List.all_eq_true.mp List.all_takeWhile)

theorem skipLetters_eq (h : Starts src i s) :
    skipLetters src (byteLength src) i = .ok (i + byteLength (s.takeWhile isLetter)) := by
  have hsplit : s.takeWhile isLetter ++ s.dropWhile isLetter = s := List.takeWhile_append_dropWhile
  have hle : byteLength (s.takeWhile isLetter) ≤ byteLength s := by
    conv => rhs; rw [← hsplit, byteLength_append]
    omega
  have hlimit : byteLength src - i = min (byteLength s) (byteLength s) := by
    rw [h.byteLength_eq]
    omega
  rw [skipLetters_starts h hlimit, ← byteLength_takeWhile_isLetter, Nat.min_eq_right hle]

/-- A limit that cuts a name lies in front of a letter. -/
theorem peek_ne_of_lt_name {n : Nat} (h : Starts src i s)
    (hn : n < (s.takeWhile isLetter).length) (hd : d.toNat < 128) (hletter : isLetter d = false) :
    peek src (i + n) ≠ some (ascii d) := by
  have hsplit : s.takeWhile isLetter ++ s.dropWhile isLetter = s := List.takeWhile_append_dropWhile
  have hname : ∀ c ∈ s.takeWhile isLetter, isLetter c = true :=
    List.all_eq_true.mp List.all_takeWhile
  have htail : Starts src (i + n) ((s.takeWhile isLetter).drop n ++ s.dropWhile isLetter) := by
    apply Starts.after (a := (s.takeWhile isLetter).take n)
    · rwa [← List.append_assoc, List.take_append_drop, hsplit]
    · rw [byteLength_of_letters fun c hc => hname c (List.mem_of_mem_take hc),
        List.length_take_of_le (Nat.le_of_lt hn)]
  apply htail.peek_ne hd
  intro t ht
  rw [List.drop_eq_getElem_cons hn] at ht
  have hc := hname _ (List.getElem_mem hn)
  rw [(List.cons.inj ht).1, hletter] at hc
  cases hc

end Manuscript.Markup.Offset
