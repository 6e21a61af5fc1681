/-! Decimal digits of natural numbers, written and read. Main statements: reading undoes writing, so
different numbers have different digits, and they are the digits that `toString` writes. -/
namespace Manuscript.Text

def digitChar (n : Nat) : Char := Char.ofNat (48 + n % 10)

def digits (n : Nat) : List Char :=
  if n < 10 then [digitChar n] else digits (n / 10) ++ [digitChar n]

def decimal (n : Nat) : String := String.ofList (digits n)

def isDigit (c : Char) : Bool := 48 ≤ c.toNat && c.toNat ≤ 57

def digitValue (c : Char) : Nat := c.toNat - 48

def digitsFrom (n : Nat) (s : List Char) : Nat := s.foldl (fun n c => n * 10 + digitValue c) n

def natural? (s : List Char) : Option Nat :=
  if s ≠ [] ∧ s.all isDigit = true then some (digitsFrom 0 s) else none

theorem toNat_digitChar (n : Nat) : (digitChar n).toNat = 48 + n % 10 := by
  have h : n % 10 < 10 := Nat.mod_lt _ (by decide)
  generalize hm : n % 10 = m at h
  rw [digitChar, hm]
  have all : ∀ k < 10, (Char.ofNat (48 + k)).toNat = 48 + k := by decide
  exact all m h

theorem isDigit_digitChar (n : Nat) : isDigit (digitChar n) = true := by
  have h : n % 10 < 10 := Nat.mod_lt _ (by decide)
  simp only [isDigit, toNat_digitChar, Bool.and_eq_true, decide_eq_true_eq]
  omega

theorem digits_ne_nil (n : Nat) : digits n ≠ [] := by
  rw [digits]
  split <;> simp

theorem all_isDigit_digits (n : Nat) : (digits n).all isDigit = true := by
  fun_induction digits n with
  | case1 n => simp [isDigit_digitChar]
  | case2 n _ ih => simp [isDigit_digitChar, ih]

theorem digitsFrom_concat (n : Nat) (s : List Char) (c : Char) :
    digitsFrom n (s ++ [c]) = digitsFrom n s * 10 + digitValue c := by
  simp [digitsFrom]

theorem digitsFrom_digits (n : Nat) : digitsFrom 0 (digits n) = n := by
  fun_induction digits n with
  | case1 n h =>
    simp only [digitsFrom, List.foldl_cons, List.foldl_nil, digitValue, toNat_digitChar]
    omega
  | case2 n h ih =>
    rw [digitsFrom_concat, ih, digitValue, toNat_digitChar]
    omega

theorem natural?_digits (n : Nat) : natural? (digits n) = some n := by
  simp [natural?, digits_ne_nil, all_isDigit_digits, digitsFrom_digits]

theorem decimal_injective {m n : Nat} (h : decimal m = decimal n) : m = n := by
  have hd : digits m = digits n := by
    have := congrArg String.toList h
    simpa [decimal] using this
  have := congrArg natural? hd
  simpa [natural?_digits] using this

theorem digitChar_eq (n : Nat) : digitChar n = Nat.digitChar (n % 10) := by
  have h : n % 10 < 10 := Nat.mod_lt _ (by decide)
  generalize hm : n % 10 = m at h
  rw [digitChar, hm]
  have all : ∀ k < 10, Char.ofNat (48 + k) = Nat.digitChar k := by decide
  exact all m h

theorem digits_eq_toDigits (n : Nat) : digits n = Nat.toDigits 10 n := by
  fun_induction digits n with
  | case1 n h => rw [Nat.toDigits_of_lt_base h, digitChar_eq, Nat.mod_eq_of_lt h]
  | case2 n h ih => rw [Nat.toDigits_of_base_le (by decide) (Nat.le_of_not_lt h), ih, digitChar_eq]

theorem decimal_eq_toString (n : Nat) : decimal n = toString n := by
  rw [decimal, digits_eq_toDigits, Nat.toString_eq_ofList_toDigits]

end Manuscript.Text
