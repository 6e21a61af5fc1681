import Manuscript.Json.Basic

/-! Reading JSON from bytes. The reader is a machine with a stack of open arrays and objects; each
step takes at least one byte, so it ends. A failure keeps how many bytes were left, from which its
line and column follow. -/
namespace Manuscript.Json

inductive Reason
  | listEnd
  | objectEnd
  | stringEnd
  | valueEnd
  | colonExpected
  | listGoesOn
  | objectGoesOn
  | wordExpected
  | valueExpected
  | badEscape
  | badNumber
  | numberTooLarge
  | badUtf8
  | controlCharacter
  | keyExpected
  | loneSurrogate
  | trailingComma
  | trailingText
  | surrogateEnd
  | tooDeep
  deriving DecidableEq, Repr

def Reason.message : Reason → String
  | listEnd => "EOF while parsing a list"
  | objectEnd => "EOF while parsing an object"
  | stringEnd => "EOF while parsing a string"
  | valueEnd => "EOF while parsing a value"
  | colonExpected => "expected `:`"
  | listGoesOn => "expected `,` or `]`"
  | objectGoesOn => "expected `,` or `\x7d`"
  | wordExpected => "expected ident"
  | valueExpected => "expected value"
  | badEscape => "invalid escape"
  | badNumber => "invalid number"
  | numberTooLarge => "number out of range"
  | badUtf8 => "invalid unicode code point"
  | controlCharacter => "control character (\\u0000-\\u001F) found while parsing a string"
  | keyExpected => "key must be a string"
  | loneSurrogate => "lone leading surrogate in hex escape"
  | trailingComma => "trailing comma"
  | trailingText => "trailing characters"
  | surrogateEnd => "unexpected end of hex escape"
  | tooDeep => "recursion limit exceeded"

/-- A failure at the place where `left` bytes of the text remain. -/
structure Failure where
  reason : Reason
  left : Nat
  deriving DecidableEq, Repr

structure Position where
  line : Nat
  column : Nat
  deriving DecidableEq, Repr

def Position.after (bytes : List UInt8) : Position :=
  bytes.foldl (fun p b => if b = 10 then ⟨p.line + 1, 0⟩ else ⟨p.line, p.column + 1⟩) ⟨1, 0⟩

structure SyntaxError where
  reason : Reason
  position : Position
  deriving DecidableEq, Repr

def SyntaxError.message (e : SyntaxError) : String :=
  e.reason.message ++ " at line " ++ Text.decimal e.position.line ++ " column " ++
    Text.decimal e.position.column

abbrev Reading (α : Type) := Except Failure (α × List UInt8)

def failBefore (reason : Reason) (rest : List UInt8) : Except Failure α :=
  .error ⟨reason, rest.length⟩

def failOn (reason : Reason) (rest : List UInt8) : Except Failure α :=
  .error ⟨reason, rest.length - 1⟩

def ascii (b : UInt8) : Char := Char.ofUInt8 b

def isSpace (b : UInt8) : Bool :=
  ascii b == ' ' || ascii b == '\n' || ascii b == '\t' || ascii b == '\r'

def skipSpace (s : List UInt8) : List UInt8 := s.dropWhile isSpace

def isDigitByte (b : UInt8) : Bool := Text.isDigit (ascii b)

def digitOf (b : UInt8) : Nat := Text.digitValue (ascii b)

def word : List Char → List UInt8 → Except Failure (List UInt8)
  | [], s => .ok s
  | _ :: _, [] => failBefore .valueEnd []
  | c :: w, b :: s => if ascii b = c then word w s else failBefore .wordExpected s

/-! Numbers. -/

def finish (negative : Bool) (significand : Nat) (e : Int) (s : List UInt8) : Reading Number :=
  match Double.ofDecimal? negative (UInt64.ofNat significand) e with
  | some bits => .ok (.double bits, s)
  | none => failBefore .numberTooLarge s

/-- Digits of an exponent, from the value `e` on. A value past 31 bits decides the number at once. -/
def exponentDigits (negative : Bool) (significand : Nat) (up : Bool) (start : Int) :
    Nat → List UInt8 → Reading Number
  | e, [] => finish negative significand (start + if up then (e : Int) else -e) []
  | e, b :: s =>
    if isDigitByte b then
      if 0x80000000 ≤ e * 10 + digitOf b then
        if significand ≠ 0 ∧ up = true then failBefore .numberTooLarge s
        else .ok (.double (if negative then Double.negativeZero else Double.zero),
          s.dropWhile isDigitByte)
      else exponentDigits negative significand up start (e * 10 + digitOf b) s
    else finish negative significand (start + if up then (e : Int) else -e) (b :: s)

def sign (s : List UInt8) : Bool × List UInt8 :=
  match s with
  | b :: r => if ascii b = '+' then (true, r) else if ascii b = '-' then (false, r) else (true, s)
  | [] => (true, [])

def exponent (negative : Bool) (significand : Nat) (start : Int) (s : List UInt8) :
    Reading Number :=
  match (sign s).2 with
  | [] => failBefore .valueEnd []
  | b :: r =>
    if isDigitByte b then exponentDigits negative significand (sign s).1 start (digitOf b) r
    else failBefore .badNumber r

def exponentOrEnd (negative : Bool) (significand : Nat) (e : Int) (s : List UInt8) :
    Reading Number :=
  match s with
  | b :: r => if ascii b = 'e' ∨ ascii b = 'E' then exponent negative significand e r
    else finish negative significand e s
  | [] => finish negative significand e s

def addDigits (significand used : Nat) : List UInt8 → Nat × Nat
  | [] => (significand, used)
  | b :: s =>
    if UInt64.size ≤ significand * 10 + digitOf b then (significand, used)
    else addDigits (significand * 10 + digitOf b) (used + 1) s

def fraction (negative : Bool) (significand : Nat) (start : Int) (s : List UInt8) :
    Reading Number :=
  match s with
  | [] => failOn .valueEnd []
  | b :: r =>
    if isDigitByte b then
      let (m, used) := addDigits significand 0 (b :: r.takeWhile isDigitByte)
      exponentOrEnd negative m (start - used) (r.dropWhile isDigitByte)
    else failOn .badNumber (b :: r)

def afterWhole (negative : Bool) (n : Nat) (s : List UInt8) : Reading Number :=
  let whole : Number :=
    if negative then
      -- there is no integer that is minus zero
      if n = 0 then .double Double.negativeZero
      else if n ≤ 0x8000000000000000 then .int (-n)
      else .double (-(UInt64.ofNat n).toFloat).toBits
    else .int n
  match s with
  | b :: r =>
    if ascii b = '.' then fraction negative n 0 r
    else if ascii b = 'e' ∨ ascii b = 'E' then exponent negative n 0 r
    else .ok (whole, s)
  | [] => .ok (whole, s)

def afterFull (negative : Bool) (significand : Nat) (s : List UInt8) : Reading Number :=
  -- the significand has no room for these digits
  let e := (s.takeWhile isDigitByte).length
  match s.dropWhile isDigitByte with
  | b :: r => if ascii b = '.' then fraction negative significand e r
    else exponentOrEnd negative significand e (b :: r)
  | [] => finish negative significand e []

def whole (negative : Bool) : Nat → List UInt8 → Reading Number
  | n, [] => afterWhole negative n []
  | n, b :: s =>
    if isDigitByte b then
      if UInt64.size ≤ n * 10 + digitOf b then afterFull negative n (b :: s)
      else whole negative (n * 10 + digitOf b) s
    else afterWhole negative n (b :: s)

def number? (negative : Bool) : List UInt8 → Reading Number
  | [] => failBefore .valueEnd []
  | b :: s =>
    if ascii b = '0' then
      match s with
      | c :: r => if isDigitByte c then failOn .badNumber (c :: r) else afterWhole negative 0 s
      | [] => afterWhole negative 0 s
    else if isDigitByte b then whole negative (digitOf b) s
    else failBefore .badNumber s

/-! Strings. -/

def hexValue? (b : UInt8) : Option Nat :=
  let n := b.toNat
  if 48 ≤ n ∧ n ≤ 57 then some (n - 48)
  else if 65 ≤ n ∧ n ≤ 70 then some (n - 55)
  else if 97 ≤ n ∧ n ≤ 102 then some (n - 87)
  else none

def hex4 : List UInt8 → Reading Nat
  | a :: b :: c :: d :: s =>
    match hexValue? a, hexValue? b, hexValue? c, hexValue? d with
    | some a, some b, some c, some d => .ok (((a * 16 + b) * 16 + c) * 16 + d, s)
    | _, _, _, _ => failBefore .badEscape s
  | _ => failBefore .stringEnd []

def utf8 (code : Nat) : List UInt8 := (String.singleton (Char.ofNat code)).toUTF8.toList

def lowSurrogate (high : Nat) : List UInt8 → Reading (List UInt8)
  | [] => failBefore .stringEnd []
  | b :: s =>
    if ascii b = '\\' then
      match s with
      | [] => failBefore .stringEnd []
      | c :: r =>
        if ascii c = 'u' then
          match hex4 r with
          | .error e => .error e
          | .ok (low, r) =>
            if 0xDC00 ≤ low ∧ low ≤ 0xDFFF then
              .ok (utf8 ((high - 0xD800) * 0x400 + (low - 0xDC00) + 0x10000), r)
            else failBefore .loneSurrogate r
        else failBefore .surrogateEnd r
    else failBefore .surrogateEnd s

def escape : List UInt8 → Reading (List UInt8)
  | [] => failBefore .stringEnd []
  | b :: s =>
    match ascii b with
    | '"' => .ok ([34], s)
    | '\\' => .ok ([92], s)
    | '/' => .ok ([47], s)
    | 'b' => .ok ([8], s)
    | 'f' => .ok ([12], s)
    | 'n' => .ok ([10], s)
    | 'r' => .ok ([13], s)
    | 't' => .ok ([9], s)
    | 'u' =>
      match hex4 s with
      | .error e => .error e
      | .ok (n, s) =>
        if 0xDC00 ≤ n ∧ n ≤ 0xDFFF then failBefore .loneSurrogate s
        else if 0xD800 ≤ n ∧ n ≤ 0xDBFF then lowSurrogate n s
        else .ok (utf8 n, s)
    | _ => failBefore .badEscape s

/-! Every reader leaves less than it was given. -/

theorem finish_le {negative : Bool} {m : Nat} {e : Int} {s r : List UInt8} {n : Number}
    (h : finish negative m e s = .ok (n, r)) : r.length ≤ s.length := by
  unfold finish at h
  split at h
  · cases h
    exact Nat.le_refl _
  · cases h

theorem length_dropWhile_le (p : UInt8 → Bool) (s : List UInt8) :
    (s.dropWhile p).length ≤ s.length := (List.dropWhile_sublist p).length_le

theorem exponentDigits_le {negative up : Bool} {m : Nat} {start : Int} {e : Nat}
    {s r : List UInt8} {n : Number} (h : exponentDigits negative m up start e s = .ok (n, r)) :
    r.length ≤ s.length := by
  fun_induction exponentDigits negative m up start e s with
  | case1 e => exact finish_le h
  | case2 => cases h
  | case3 e b s =>
    cases h
    exact Nat.le_succ_of_le (length_dropWhile_le _ _)
  | case4 e b s _ _ ih => exact Nat.le_succ_of_le (ih h)
  | case5 e b s => exact finish_le h

theorem sign_le (s : List UInt8) : (sign s).2.length ≤ s.length := by
  unfold sign
  split
  · split
    · exact Nat.le_succ _
    · split
      · exact Nat.le_succ _
      · exact Nat.le_refl _
  · exact Nat.le_refl _

theorem exponent_le {negative : Bool} {m : Nat} {start : Int} {s r : List UInt8} {n : Number}
    (h : exponent negative m start s = .ok (n, r)) : r.length ≤ s.length := by
  have hs := sign_le s
  unfold exponent at h
  split at h
  · cases h
  · rename_i b t he
    rw [he] at hs
    split at h
    · exact Nat.le_trans (exponentDigits_le h) (Nat.le_of_succ_le hs)
    · cases h

theorem exponentOrEnd_le {negative : Bool} {m : Nat} {e : Int} {s r : List UInt8} {n : Number}
    (h : exponentOrEnd negative m e s = .ok (n, r)) : r.length ≤ s.length := by
  unfold exponentOrEnd at h
  split at h
  · split at h
    · exact Nat.le_succ_of_le (exponent_le h)
    · exact finish_le h
  · exact finish_le h

theorem fraction_le {negative : Bool} {m : Nat} {start : Int} {s r : List UInt8} {n : Number}
    (h : fraction negative m start s = .ok (n, r)) : r.length ≤ s.length := by
  unfold fraction at h
  split at h
  · cases h
  · split at h
    · exact Nat.le_trans (exponentOrEnd_le h) (Nat.le_succ_of_le (length_dropWhile_le _ _))
    · cases h

theorem afterWhole_le {negative : Bool} {m : Nat} {s r : List UInt8} {n : Number}
    (h : afterWhole negative m s = .ok (n, r)) : r.length ≤ s.length := by
  unfold afterWhole at h
  dsimp only at h
  split at h
  · split at h
    · exact Nat.le_succ_of_le (fraction_le h)
    · split at h
      · exact Nat.le_succ_of_le (exponent_le h)
      · cases h
        exact Nat.le_refl _
  · cases h
    exact Nat.le_refl _

theorem afterFull_le {negative : Bool} {m : Nat} {s r : List UInt8} {n : Number}
    (h : afterFull negative m s = .ok (n, r)) : r.length ≤ s.length := by
  have hs := length_dropWhile_le isDigitByte s
  unfold afterFull at h
  dsimp only at h
  split at h
  · rename_i b t he
    rw [he] at hs
    split at h
    · exact Nat.le_trans (fraction_le h) (Nat.le_of_succ_le hs)
    · exact Nat.le_trans (exponentOrEnd_le h) hs
  · exact Nat.le_trans (finish_le h) (Nat.zero_le _)

theorem whole_le {negative : Bool} {m : Nat} {s r : List UInt8} {n : Number}
    (h : whole negative m s = .ok (n, r)) : r.length ≤ s.length := by
  fun_induction whole negative m s with
  | case1 m => exact afterWhole_le h
  | case2 m b s => exact afterFull_le h
  | case3 m b s _ _ ih => exact Nat.le_succ_of_le (ih h)
  | case4 m b s => exact afterWhole_le h

theorem number?_shorter {negative : Bool} {s r : List UInt8} {n : Number}
    (h : number? negative s = .ok (n, r)) : r.length < s.length := by
  unfold number? at h
  split at h
  · cases h
  · split at h
    · split at h
      · split at h
        · cases h
        · exact Nat.lt_succ_of_le (afterWhole_le h)
      · exact Nat.lt_succ_of_le (afterWhole_le h)
    · split at h
      · exact Nat.lt_succ_of_le (whole_le h)
      · cases h

theorem word_le {w : List Char} {s r : List UInt8} (h : word w s = .ok r) :
    r.length ≤ s.length := by
  fun_induction word w s with
  | case1 s =>
    cases h
    exact Nat.le_refl _
  | case2 => cases h
  | case3 w b s ih => exact Nat.le_succ_of_le (ih h)
  | case4 => cases h

theorem hex4_le {s r : List UInt8} {n : Nat} (h : hex4 s = .ok (n, r)) :
    r.length ≤ s.length := by
  unfold hex4 at h
  split at h
  · split at h
    · cases h
      simp only [List.length_cons]
      omega
    · cases h
  · cases h

theorem lowSurrogate_le {high : Nat} {s r bs : List UInt8}
    (h : lowSurrogate high s = .ok (bs, r)) : r.length ≤ s.length := by
  unfold lowSurrogate at h
  split at h
  · cases h
  · split at h
    · split at h
      · cases h
      · split at h
        · split at h
          · cases h
          · rename_i he
            have := hex4_le he
            split at h
            · cases h
              simp only [List.length_cons]
              omega
            · cases h
        · cases h
    · cases h

theorem escape_le {s r bs : List UInt8} (h : escape s = .ok (bs, r)) :
    r.length ≤ s.length := by
  unfold escape at h
  split at h
  · cases h
  · split at h
    case h_9 =>
      split at h
      · cases h
      · rename_i he
        have h1 := hex4_le he
        split at h
        · cases h
        · split at h
          · exact Nat.le_succ_of_le (Nat.le_trans (lowSurrogate_le h) h1)
          · cases h
            exact Nat.le_succ_of_le h1
    case h_10 => cases h
    all_goals
      cases h
      exact Nat.le_succ _

def stringBytes (done : List UInt8) : List UInt8 → Reading (List UInt8)
  | [] => failBefore .stringEnd []
  | b :: s =>
    if ascii b = '"' then .ok (done.reverse, s)
    else if ascii b = '\\' then
      match h : escape s with
      | .error e => .error e
      | .ok (bytes, r) =>
        have := escape_le h
        stringBytes (bytes.reverse ++ done) r
    else if b < 32 then failBefore .controlCharacter s
    else stringBytes (b :: done) s
termination_by s => s.length
decreasing_by all_goals simp only [List.length_cons]; omega

theorem stringBytes_shorter {done s r bs : List UInt8} (h : stringBytes done s = .ok (bs, r)) :
    r.length < s.length := by
  fun_induction stringBytes done s with
  | case1 => cases h
  | case2 done b s =>
    cases h
    exact Nat.lt_succ_self _
  | case3 => cases h
  | case4 done b s _ _ bytes t he hle ih => exact Nat.lt_succ_of_lt (Nat.lt_of_lt_of_le (ih h) hle)
  | case5 => cases h
  | case6 done b s _ _ _ ih => exact Nat.lt_succ_of_lt (ih h)

/-- A string after its opening quote. Bytes that are not UTF-8 are found at the closing quote. -/
def string? (s : List UInt8) : Reading String :=
  match stringBytes [] s with
  | .error e => .error e
  | .ok (bytes, r) =>
    match String.fromUTF8? ⟨bytes.toArray⟩ with
    | some text => .ok (text, r)
    | none => .error ⟨.badUtf8, r.length + 1⟩

theorem string?_shorter {s r : List UInt8} {text : String} (h : string? s = .ok (text, r)) :
    r.length < s.length := by
  unfold string? at h
  split at h
  · cases h
  · rename_i he
    split at h
    · cases h
      exact stringBytes_shorter he
    · cases h

/-! The machine. -/

inductive Frame
  | items (done : List Json)
  | fields (done : List (String × Json)) (key : String)

inductive State
  | value (stack : List Frame) (rest : List UInt8)
  | ended (stack : List Frame) (found : Json) (rest : List UInt8)

def State.rest : State → List UInt8
  | value _ rest => rest
  | ended _ _ rest => rest

def depthLimit : Nat := 127

def keyed (stack : List Frame) (done : List (String × Json)) (s : List UInt8) :
    Except Failure State :=
  match string? s with
  | .error e => .error e
  | .ok (key, r) =>
    match skipSpace r with
    | [] => failOn .objectEnd []
    | b :: t =>
      if ascii b = ':' then .ok (.value (.fields done key :: stack) t)
      else failOn .colonExpected (b :: t)

def openArray (stack : List Frame) (s : List UInt8) : Except Failure State :=
  match skipSpace s with
  | [] => failOn .listEnd []
  | b :: r =>
    if ascii b = ']' then .ok (.ended stack (.array []) r)
    else .ok (.value (.items [] :: stack) (b :: r))

def openObject (stack : List Frame) (s : List UInt8) : Except Failure State :=
  match skipSpace s with
  | [] => failOn .objectEnd []
  | b :: r =>
    match ascii b with
    | '}' => .ok (.ended stack (.object []) r)
    | '"' => keyed stack [] r
    | _ => failOn .keyExpected (b :: r)

def valueStep (limit : Nat) (stack : List Frame) (s : List UInt8) : Except Failure State :=
  match skipSpace s with
  | [] => failOn .valueEnd []
  | b :: r =>
    match ascii b with
    | 'n' => (word ['u', 'l', 'l'] r).map (.ended stack .null)
    | 't' => (word ['r', 'u', 'e'] r).map (.ended stack (.bool true))
    | 'f' => (word ['a', 'l', 's', 'e'] r).map (.ended stack (.bool false))
    | '-' => (number? true r).map fun p => .ended stack (.number p.1) p.2
    | '"' => (string? r).map fun p => .ended stack (.string p.1) p.2
    | '[' => if limit ≤ stack.length then failOn .tooDeep (b :: r) else openArray stack r
    | '{' => if limit ≤ stack.length then failOn .tooDeep (b :: r) else openObject stack r
    | _ =>
      if isDigitByte b then (number? false (b :: r)).map fun p => .ended stack (.number p.1) p.2
      else failOn .valueExpected (b :: r)

def nextItem (stack : List Frame) (done : List Json) (s : List UInt8) : Except Failure State :=
  match skipSpace s with
  | [] => failOn .valueEnd []
  | b :: r =>
    if ascii b = ']' then failOn .trailingComma (b :: r)
    else .ok (.value (.items done :: stack) (b :: r))

def nextField (stack : List Frame) (done : List (String × Json)) (s : List UInt8) :
    Except Failure State :=
  match skipSpace s with
  | [] => failOn .valueEnd []
  | b :: r =>
    match ascii b with
    | '"' => keyed stack done r
    | '}' => failOn .trailingComma (b :: r)
    | _ => failOn .keyExpected (b :: r)

def endStep (stack : List Frame) (v : Json) (s : List UInt8) : Except Failure (State ⊕ Json) :=
  match stack, skipSpace s with
  | [], [] => .ok (.inr v)
  | [], r => failOn .trailingText r
  | .items _ :: _, [] => failOn .listEnd []
  | .fields _ _ :: _, [] => failOn .objectEnd []
  | .items done :: stack, b :: r =>
    match ascii b with
    | ']' => .ok (.inl (.ended stack (.array (v :: done).reverse) r))
    | ',' => (nextItem stack (v :: done) r).map .inl
    | _ => failOn .listGoesOn (b :: r)
  | .fields done key :: stack, b :: r =>
    match ascii b with
    | '}' => .ok (.inl (.ended stack (.object (insertField key v done)) r))
    | ',' => (nextField stack (insertField key v done) r).map .inl
    | _ => failOn .objectGoesOn (b :: r)

def State.step (limit : Nat) : State → Except Failure (State ⊕ Json)
  | value stack s => (valueStep limit stack s).map .inl
  | ended stack v s => endStep stack v s

theorem skipSpace_le (s : List UInt8) : (skipSpace s).length ≤ s.length :=
  length_dropWhile_le _ _

theorem keyed_le {stack : List Frame} {done : List (String × Json)} {s : List UInt8} {t : State}
    (h : keyed stack done s = .ok t) : t.rest.length ≤ s.length := by
  unfold keyed at h
  split at h
  · cases h
  · rename_i key r hs
    have h1 := string?_shorter hs
    have h2 := skipSpace_le r
    split at h
    · cases h
    · rename_i b u he
      rw [he] at h2
      split at h
      · cases h
        simp only [List.length_cons] at h2
        simp only [State.rest]
        omega
      · cases h

theorem openArray_le {stack : List Frame} {s : List UInt8} {t : State}
    (h : openArray stack s = .ok t) : t.rest.length ≤ s.length := by
  have hs := skipSpace_le s
  unfold openArray at h
  split at h
  · cases h
  · rename_i b r he
    rw [he] at hs
    split at h <;> cases h
    · exact Nat.le_of_succ_le hs
    · exact hs

theorem openObject_le {stack : List Frame} {s : List UInt8} {t : State}
    (h : openObject stack s = .ok t) : t.rest.length ≤ s.length := by
  have hs := skipSpace_le s
  unfold openObject at h
  split at h
  · cases h
  · rename_i b r he
    rw [he] at hs
    split at h
    · cases h
      exact Nat.le_of_succ_le hs
    · exact Nat.le_trans (keyed_le h) (Nat.le_of_succ_le hs)
    · cases h

theorem nextItem_le {stack : List Frame} {done : List Json} {s : List UInt8} {t : State}
    (h : nextItem stack done s = .ok t) : t.rest.length ≤ s.length := by
  have hs := skipSpace_le s
  unfold nextItem at h
  split at h
  · cases h
  · rename_i b r he
    rw [he] at hs
    split at h <;> cases h
    exact hs

theorem nextField_le {stack : List Frame} {done : List (String × Json)} {s : List UInt8}
    {t : State} (h : nextField stack done s = .ok t) : t.rest.length ≤ s.length := by
  have hs := skipSpace_le s
  unfold nextField at h
  split at h
  · cases h
  · rename_i b r he
    rw [he] at hs
    split at h
    · exact Nat.le_trans (keyed_le h) (Nat.le_of_succ_le hs)
    · cases h
    · cases h

theorem exists_of_map_eq_ok {e : Except ε α} {f : α → β} {b : β} (h : e.map f = .ok b) :
    ∃ a, e = .ok a ∧ f a = b := by
  cases e with
  | error => cases h
  | ok a => exact ⟨a, rfl, by simpa [Except.map] using h⟩

theorem valueStep_shorter {limit : Nat} {stack : List Frame} {s : List UInt8} {t : State}
    (h : valueStep limit stack s = .ok t) : t.rest.length < s.length := by
  have hs := skipSpace_le s
  unfold valueStep at h
  split at h
  · cases h
  · rename_i b r he
    rw [he] at hs
    split at h
    case h_6 | h_7 =>
      split at h
      · cases h
      · first
        | exact Nat.lt_of_lt_of_le (Nat.lt_succ_of_le (openArray_le h)) hs
        | exact Nat.lt_of_lt_of_le (Nat.lt_succ_of_le (openObject_le h)) hs
    case h_8 =>
      split at h
      · obtain ⟨p, hp, rfl⟩ := exists_of_map_eq_ok h
        exact Nat.lt_of_lt_of_le (number?_shorter hp) hs
      · cases h
    case h_4 =>
      obtain ⟨p, hp, rfl⟩ := exists_of_map_eq_ok h
      exact Nat.lt_of_lt_of_le (Nat.lt_succ_of_lt (number?_shorter hp)) hs
    case h_5 =>
      obtain ⟨p, hp, rfl⟩ := exists_of_map_eq_ok h
      exact Nat.lt_of_lt_of_le (Nat.lt_succ_of_lt (string?_shorter hp)) hs
    all_goals
      obtain ⟨p, hp, rfl⟩ := exists_of_map_eq_ok h
      exact Nat.lt_of_lt_of_le (Nat.lt_succ_of_le (word_le hp)) hs

theorem endStep_shorter {stack : List Frame} {v : Json} {s : List UInt8} {t : State}
    (h : endStep stack v s = .ok (.inl t)) : t.rest.length < s.length := by
  have hs := skipSpace_le s
  unfold endStep at h
  split at h
  case h_5 he | h_6 he =>
    rw [he] at hs
    refine Nat.lt_of_lt_of_le (Nat.lt_succ_of_le ?_) hs
    split at h
    · cases h
      exact Nat.le_refl _
    · obtain ⟨u, hu, hut⟩ := exists_of_map_eq_ok h
      cases hut
      first | exact nextItem_le hu | exact nextField_le hu
    · cases h
  all_goals cases h

theorem State.step_shorter {limit : Nat} {s t : State} (h : s.step limit = .ok (.inl t)) :
    t.rest.length < s.rest.length := by
  cases s with
  | value stack rest =>
    obtain ⟨u, hu, hut⟩ := exists_of_map_eq_ok h
    cases hut
    exact valueStep_shorter hu
  | ended stack v rest => exact endStep_shorter h

def State.run (limit : Nat) (s : State) : Except Failure Json :=
  match _h : s.step limit with
  | .error e => .error e
  | .ok (.inr v) => .ok v
  | .ok (.inl t) => t.run limit
termination_by s.rest.length
decreasing_by exact State.step_shorter _h

def readWithin (limit : Nat) (bytes : List UInt8) : Except SyntaxError Json :=
  match (State.value [] bytes).run limit with
  | .ok v => .ok v
  | .error e => .error ⟨e.reason, Position.after (bytes.take (bytes.length - e.left))⟩

def read (bytes : List UInt8) : Except SyntaxError Json := readWithin depthLimit bytes

end Manuscript.Json
