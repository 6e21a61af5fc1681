import Manuscript.Proofs.Text.Bytes

/-! Bytes shown as a text. Those of a text are shown as that text, and an ASCII byte ends what stands before it,
so a name is shown part by part around its dots. -/
namespace Manuscript.Text

variable {b b1 b2 b3 : UInt8} {c : Begun} {n : Nat}

theorem lossyFrom_of_begun (hb : 0x80 ≤ b.toNat) (hc : Begun.of? b.toNat = some c)
    (bytes : List UInt8) : lossyFrom none (b :: bytes) = lossyFrom (some c) bytes := by
  simp [lossyFrom, first, Nat.not_lt.mpr hb, hc]

theorem lossyFrom_of_more {more : Nat} (hmore : c.more = more + 1) (hlow : c.low ≤ b.toNat)
    (hhigh : b.toNat ≤ c.high) (bytes : List UInt8) : lossyFrom (some c) (b :: bytes) =
      lossyFrom (some { bits := 64 * c.bits + (b.toNat - 0x80), more }) bytes := by
  simp [lossyFrom, Begun.next, hlow, hhigh, hmore]

theorem lossyFrom_of_last (hmore : c.more = 0) (hlow : c.low ≤ b.toNat) (hhigh : b.toNat ≤ c.high)
    (hbits : 64 * c.bits + (b.toNat - 0x80) = n) (bytes : List UInt8) :
    lossyFrom (some c) (b :: bytes) = Char.ofNat n :: lossyFrom none bytes := by
  simp [lossyFrom, Begun.next, hlow, hhigh, hmore, hbits]

/-! Characters of one byte to four. -/

theorem lossyFrom_one (h : b.toNat < 0x80) (bytes : List UInt8) :
    lossyFrom none (b :: bytes) = Char.ofNat b.toNat :: lossyFrom none bytes := by
  simp [lossyFrom, first, h]

theorem lossyFrom_two (hlow : 0x80 ≤ n) (hhigh : n < 0x800) (hb : b.toNat = n / 64 + 192)
    (hb1 : b1.toNat = n % 64 + 128) (bytes : List UInt8) :
    lossyFrom none (b :: b1 :: bytes) = Char.ofNat n :: lossyFrom none bytes := by
  have hbegun : Begun.of? b.toNat = some (.two b.toNat) := by
    rw [Begun.of?, if_pos (by omega)]
  rw [lossyFrom_of_begun (by omega) hbegun]
  apply lossyFrom_of_last <;> dsimp only [Begun.two] <;> omega

theorem lossyFrom_three (hlow : 0x800 ≤ n) (hhigh : n < 0x10000) (hno : n < 0xD800 ∨ 0xDFFF < n)
    (hb : b.toNat = n / 4096 + 224) (hb1 : b1.toNat = n / 64 % 64 + 128)
    (hb2 : b2.toNat = n % 64 + 128) (bytes : List UInt8) :
    lossyFrom none (b :: b1 :: b2 :: bytes) = Char.ofNat n :: lossyFrom none bytes := by
  have hbegun : Begun.of? b.toNat = some (.three b.toNat) := by
    rw [Begun.of?, if_neg (by omega), if_pos (by omega)]
  rw [lossyFrom_of_begun (by omega) hbegun, lossyFrom_of_more rfl]
  · apply lossyFrom_of_last <;> dsimp only [Begun.three] <;> omega
  · dsimp only [Begun.three]
    split <;> omega
  · dsimp only [Begun.three]
    split <;> omega

theorem lossyFrom_four (hlow : 0x10000 ≤ n) (hhigh : n < 0x110000)
    (hb : b.toNat = n / 262144 + 240) (hb1 : b1.toNat = n / 4096 % 64 + 128)
    (hb2 : b2.toNat = n / 64 % 64 + 128) (hb3 : b3.toNat = n % 64 + 128) (bytes : List UInt8) :
    lossyFrom none (b :: b1 :: b2 :: b3 :: bytes) = Char.ofNat n :: lossyFrom none bytes := by
  have hbegun : Begun.of? b.toNat = some (.four b.toNat) := by
    rw [Begun.of?, if_neg (by omega), if_neg (by omega), if_pos (by omega)]
  rw [lossyFrom_of_begun (by omega) hbegun, lossyFrom_of_more rfl, lossyFrom_of_more rfl]
  · apply lossyFrom_of_last <;> dsimp only [Begun.four] <;> omega
  · dsimp only
    omega
  · dsimp only
    omega
  · dsimp only [Begun.four]
    split <;> omega
  · dsimp only [Begun.four]
    split <;> omega

theorem lossyFrom_utf8EncodeChar (c : Char) (bytes : List UInt8) :
    lossyFrom none (String.utf8EncodeChar c ++ bytes) = c :: lossyFrom none bytes := by
  have hchar : Char.ofNat c.toNat = c := Char.ofNat_toNat c
  have hvalid : c.toNat < 0xD800 ∨ 0xDFFF < c.toNat ∧ c.toNat < 0x110000 := c.valid
  have hval : c.val.toNat = c.toNat := rfl
  simp only [String.utf8EncodeChar, hval]
  generalize c.toNat = n at hchar hvalid
  have hbyte : ∀ {k m : Nat}, k < 256 → k = m → (UInt8.ofNat k).toNat = m := by
    rintro k m hk rfl
    exact UInt8.toNat_ofNat_of_lt' hk
  rw [← hchar]
  split
  · have hn : (UInt8.ofNat n).toNat = n := hbyte (by omega) rfl
    have hone := lossyFrom_one (b := UInt8.ofNat n) (by omega) bytes
    rwa [hn] at hone
  · split
    · exact lossyFrom_two (by omega) (by omega) (hbyte (by omega) (by omega))
        (hbyte (by omega) rfl) bytes
    · split
      · exact lossyFrom_three (by omega) (by omega) (by omega) (hbyte (by omega) (by omega))
          (hbyte (by omega) rfl) (hbyte (by omega) rfl) bytes
      · exact lossyFrom_four (by omega) (by omega) (hbyte (by omega) (by omega))
          (hbyte (by omega) rfl) (hbyte (by omega) rfl) (hbyte (by omega) rfl) bytes

theorem lossyFrom_bytes (s : List Char) : lossyFrom none (bytes s) = s := by
  induction s with
  | nil => rfl
  | cons c s ih => rw [bytes_cons, lossyFrom_utf8EncodeChar, ih]

theorem toUtf8_eq (s : String) : toUtf8 s = bytes s.toList := by
  rw [toUtf8, String.toUTF8, ← String.utf8Encode_toList, List.utf8Encode]
  simp [bytes]

/-- A text is shown as it is. -/
theorem lossy_toUtf8 (s : String) : lossy (toUtf8 s) = s := by
  rw [lossy, toUtf8_eq, lossyFrom_bytes, String.ofList_toList]

/-! An ASCII byte belongs to no longer character. -/

theorem lossyFrom_append_ascii (hb : b.toNat < 0x80) (c? : Option Begun) (s t : List UInt8) :
    lossyFrom c? (s ++ b :: t) = lossyFrom c? s ++ lossyFrom none (b :: t) := by
  induction s generalizing c? with
  | nil =>
    cases c? with
    | none => rfl
    | some c =>
      -- the character breaks off here, as no bounds reach down to ASCII
      have hout : ¬ (c.low ≤ b.toNat ∧ b.toNat ≤ c.high) := by
        have := c.low_ge
        omega
      simp [lossyFrom, Begun.next, hout]
  | cons a s ih => cases c? <;> simp [lossyFrom, ih]

theorem lossy_append_ascii (hb : b.toNat < 0x80) (s t : List UInt8) :
    lossy (s ++ b :: t) = lossy s ++ lossy (b :: t) := by
  rw [lossy, lossyFrom_append_ascii hb, String.ofList_append, lossy, lossy]

/-! Text read back. -/

theorem ofUtf8?_eq_some_iff {bytes : List UInt8} {s : String} :
    ofUtf8? bytes = some s ↔ bytes = toUtf8 s := by
  unfold ofUtf8? String.fromUTF8? toUtf8
  constructor
  · intro h
    split at h
    · cases h
      rfl
    · cases h
  · rintro rfl
    have hvalid : ByteArray.IsValidUTF8 ⟨s.toUTF8.data.toList.toArray⟩ := s.isValidUTF8
    rw [dif_pos hvalid]
    rfl

end Manuscript.Text
