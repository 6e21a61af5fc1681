import Manuscript.Markup.Opening
import Manuscript.Proofs.Text.Blank
import Manuscript.Proofs.Text.Bytes
import Manuscript.Proofs.Text.Split

/-! Arguments that close where they should: an argument free of the characters that end it early and
shorter than the limit runs up to its closer. Identifiers and rows of identifiers are such arguments. -/
namespace Manuscript.Markup

open Manuscript.Text

variable {budget : Nat} {a s : List Char}

theorem bracketed_append (hlen : byteLength a < budget)
    (ha : ∀ c ∈ a, c ≠ '\n' ∧ c ≠ '[' ∧ c ≠ ']') :
    bracketed budget (a ++ ']' :: s) = some (a, s) := by
  induction a generalizing budget with
  | nil =>
    have hbudget : budget ≠ 0 := by
      simp at hlen
      omega
    simp [bracketed, hbudget]
  | cons c a ih =>
    obtain ⟨hc, ha⟩ := List.forall_mem_cons.mp ha
    rw [byteLength_cons] at hlen
    have hbudget : budget ≠ 0 := by omega
    have hrest : bracketed (budget - c.utf8Size) (a ++ ']' :: s) = some (a, s) := ih (by omega) ha
    simp [bracketed, hbudget, hc, hrest]

theorem braced_append (hlen : byteLength a < budget)
    (ha : ∀ c ∈ a, c ≠ '\n' ∧ c ≠ '{' ∧ c ≠ '}') :
    braced budget 0 (a ++ '}' :: s) = some (a, s) := by
  induction a generalizing budget with
  | nil =>
    have hbudget : budget ≠ 0 := by
      simp at hlen
      omega
    simp [braced, hbudget]
  | cons c a ih =>
    obtain ⟨hc, ha⟩ := List.forall_mem_cons.mp ha
    rw [byteLength_cons] at hlen
    have hbudget : budget ≠ 0 := by omega
    have hrest : braced (budget - c.utf8Size) 0 (a ++ '}' :: s) = some (a, s) :=
      ih (by omega) ha
    simp [braced, hbudget, hc, hrest]

theorem untilDollar_append (ha : ∀ c ∈ a, c ≠ '\\' ∧ c ≠ '\n' ∧ c ≠ '$') :
    untilDollar (a ++ '$' :: s) = some (a, s) := by
  induction a with
  | nil => simp [untilDollar]
  | cons c a ih =>
    obtain ⟨hc, ha⟩ := List.forall_mem_cons.mp ha
    simp [untilDollar, hc, ih ha]

theorem ne_of_isIdentifierChar {c d : Char} (hc : isIdentifierChar c = true)
    (hd : isIdentifierChar d = false) : c ≠ d := by
  rintro rfl
  rw [hc] at hd
  cases hd

theorem isIdentifierChar_of_mem {c : Char} (hs : isIdentifier s = true) (hc : c ∈ s) :
    isIdentifierChar c = true := by
  rw [isIdentifier, Bool.and_eq_true] at hs
  exact List.all_eq_true.mp hs.2 c hc

theorem trim_eq_self_of_isIdentifier (h : isIdentifier s = true) : trim s = s :=
  trim_eq_self fun c hc => ((isIdentifier_iff.mp h).2 c hc).1

theorem commaParts_eq_splitOn (s : List Char) :
    (commaParts s).1 :: (commaParts s).2 = s.splitOn ',' := by
  induction s with
  | nil => simp [commaParts]
  | cons c s ih =>
    rw [List.splitOn_cons_eq_if_modifyHead, ← ih, commaParts]
    by_cases hc : c = ','
    · simp [hc]
    · simp [hc]

def joined (key : List Char) (keys : List (List Char)) : List Char :=
  key ++ keys.flatMap (',' :: ·)

theorem joined_cons (key k : List Char) (keys : List (List Char)) :
    joined key (k :: keys) = key ++ ',' :: joined k keys := rfl

theorem commaParts_append {key s : List Char} (hkey : ',' ∉ key) :
    commaParts (key ++ s) = (key ++ (commaParts s).1, (commaParts s).2) := by
  induction key with
  | nil => rfl
  | cons c key ih =>
    simp only [List.mem_cons, not_or] at hkey
    simp only [List.cons_append, commaParts, ih hkey.2, if_neg (Ne.symm hkey.1)]

theorem commaParts_joined {key : List Char} {keys : List (List Char)} (hkey : ',' ∉ key)
    (hkeys : ∀ k ∈ keys, ',' ∉ k) : commaParts (joined key keys) = (key, keys) := by
  induction keys generalizing key with
  | nil =>
    rw [joined, commaParts_append hkey]
    simp [commaParts]
  | cons k keys ih =>
    obtain ⟨hk, hkeys⟩ := List.forall_mem_cons.mp hkeys
    rw [joined_cons, commaParts_append hkey]
    simp [commaParts, ih hk hkeys]

theorem joined_eq_intercalate (key : List Char) (keys : List (List Char)) :
    [','].intercalate (key :: keys) = joined key keys :=
  intercalate_cons ',' key keys

theorem ne_of_mem_joined {c d : Char} {key : List Char} {keys : List (List Char)}
    (hkey : isIdentifier key = true) (hkeys : ∀ k ∈ keys, isIdentifier k = true)
    (hd : isIdentifierChar d = false) (hcomma : d ≠ ',') (hc : c ∈ joined key keys) : c ≠ d := by
  rcases List.mem_append.mp hc with hc | hc
  · exact ne_of_isIdentifierChar (isIdentifierChar_of_mem hkey hc) hd
  · obtain ⟨k, hk, hc⟩ := List.mem_flatMap.mp hc
    rcases List.mem_cons.mp hc with rfl | hc
    · exact Ne.symm hcomma
    · exact ne_of_isIdentifierChar (isIdentifierChar_of_mem (hkeys k hk) hc) hd

end Manuscript.Markup
