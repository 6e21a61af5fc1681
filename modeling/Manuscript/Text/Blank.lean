/-! Blank characters and trimming. Main statement: a text trims to nothing exactly when
all of it is blank. -/
namespace Manuscript.Text

/-- The Unicode property `White_Space`. -/
def isBlank (c : Char) : Bool :=
  let n := c.toNat
  (9 ≤ n && n ≤ 13) || n == 0x20 || n == 0x85 || n == 0xA0 || n == 0x1680 ||
    (0x2000 ≤ n && n ≤ 0x200A) || n == 0x2028 || n == 0x2029 || n == 0x202F ||
    n == 0x205F || n == 0x3000

def trimStart (s : List Char) : List Char := s.dropWhile isBlank

def trimEnd (s : List Char) : List Char := (s.reverse.dropWhile isBlank).reverse

def trim (s : List Char) : List Char := trimEnd (trimStart s)

def allBlank (s : List Char) : Bool := s.all isBlank

def strip (s : String) : String := String.ofList (trim s.toList)

theorem dropWhile_eq_nil_iff {p : Char → Bool} {s : List Char} :
    s.dropWhile p = [] ↔ s.all p = true := by
  induction s with
  | nil => simp
  | cons c s ih => cases hp : p c <;> simp [hp, ih]

theorem trim_eq_nil_iff {s : List Char} : trim s = [] ↔ allBlank s = true := by
  constructor
  · intro h
    simp only [trim, trimEnd, List.reverse_eq_nil_iff, dropWhile_eq_nil_iff, List.all_reverse] at h
    rw [allBlank, ← dropWhile_eq_nil_iff]
    cases ht : s.dropWhile isBlank with
    | nil => rfl
    | cons c r =>
      have hc : isBlank c = false := by
        have := List.head?_dropWhile_not isBlank s
        rw [ht] at this
        simpa using this
      rw [trimStart, ht] at h
      simp [hc] at h
  · intro h
    rw [allBlank, ← dropWhile_eq_nil_iff] at h
    simp [trim, trimStart, trimEnd, h]

end Manuscript.Text
