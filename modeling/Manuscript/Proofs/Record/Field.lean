import Manuscript.Record.Shape

/-! Fields of records. A reader of a field undoes one way of writing its value, and a field of an object
may go by several names but be there only once; so what the fields read so far hold is what the object
has under their names. -/
namespace Manuscript.Record

variable {α β : Type} {read : Json → Shaped α} {encode : α → Json} {v : Json}

theorem map_eq_ok_iff {ε : Type} {x : Except ε α} {f : α → β} {b : β} :
    x.map f = .ok b ↔ ∃ a, x = .ok a ∧ f a = b := by
  cases x with
  | error e => simp [Except.map]
  | ok a => simp [Except.map]

theorem bind_eq_ok_iff {ε : Type} {x : Except ε α} {f : α → Except ε β} {b : β} :
    (x >>= f) = .ok b ↔ ∃ a, x = .ok a ∧ f a = .ok b := by
  cases x with
  | error e => simp [bind, Except.bind]
  | ok a => simp [bind, Except.bind]

def Level.json : Level → Json
  | number n => .number (.int n.toNat)
  | text s => .string s

/-- `read` takes the values that `encode` writes, and no others. -/
def Undoes (read : Json → Shaped α) (encode : α → Json) : Prop :=
  ∀ v a, read v = .ok a ↔ v = encode a

theorem Undoes.injective (h : Undoes read encode) {a b : α} (hab : encode a = encode b) :
    a = b := by
  have ha := (h (encode a) a).mpr rfl
  have hb := (h (encode a) b).mpr hab
  rw [ha] at hb
  exact Except.ok.inj hb

theorem asText_undoes : Undoes asText .string := by
  intro v t
  cases v <;> simp [asText]

theorem asLevel_undoes : Undoes asLevel Level.json := by
  intro v level
  constructor
  · intro h
    cases v with
    | number n =>
      cases n with
      | int n =>
        simp only [asLevel] at h
        split at h
        · next hn =>
          cases h
          have hsize : (UInt32.ofNat n.toNat).toNat = n.toNat := UInt32.toNat_ofNat_of_lt' hn.2
          rw [Level.json, hsize, Int.toNat_of_nonneg hn.1]
        · cases h
      | double bits => cases h
    | string s =>
      cases h
      rfl
    | _ => cases h
  · rintro rfl
    cases level with
    | number n =>
      have hn : (0 : Int) ≤ n.toNat ∧ (n.toNat : Int).toNat < UInt32.size :=
        ⟨Int.natCast_nonneg _, by simpa using n.toNat_lt⟩
      simp only [asLevel, Level.json, if_pos hn]
      simp
    | text s => rfl

theorem Undoes.optional (h : Undoes read encode) (hnull : ∀ a, encode a ≠ .null) :
    Undoes (optional read) (Json.ofOption encode) := by
  intro v o
  cases v with
  | null =>
    cases o with
    | none => simp [Record.optional, Json.ofOption]
    | some a => simpa [Record.optional, Json.ofOption] using (hnull a).symm
  | _ =>
    simp only [Record.optional, map_eq_ok_iff]
    cases o with
    | none => simp [Json.ofOption]
    | some a => simp [Json.ofOption, h _ a]

theorem optional_asText_undoes : Undoes (optional asText) (Json.ofOption .string) :=
  asText_undoes.optional fun _ => Json.noConfusion

theorem optional_asLevel_undoes : Undoes (optional asLevel) (Json.ofOption Level.json) := by
  refine asLevel_undoes.optional ?_
  intro level
  cases level <;> simp [Level.json]

/-! Fields of objects. -/

def named (names : List String) (fields : List (String × Json)) : List Json :=
  (fields.filter fun f => f.1 ∈ names).map Prod.snd

theorem named_append (names : List String) (fields more : List (String × Json)) :
    named names (fields ++ more) = named names fields ++ named names more := by
  simp [named]

def written (encode : α → Json) (o : Option α) : List Json := (o.map encode).toList

theorem Undoes.written_inj (h : Undoes read encode) {o o' : Option α} :
    written encode o = written encode o' ↔ o = o' := by
  constructor
  · intro ho
    cases o with
    | none =>
      cases o' with
      | none => rfl
      | some b => cases ho
    | some a =>
      cases o' with
      | none => cases ho
      | some b => rw [h.injective (List.cons.inj ho).1]
  · rintro rfl
    rfl

theorem exists_written_of_append {values more : List Json} {o : Option α}
    (h : values ++ more = written encode o) : ∃ o', values = written encode o' := by
  cases values with
  | nil => exact ⟨none, rfl⟩
  | cons v values =>
    cases o with
    | none => cases h
    | some a =>
      obtain ⟨rfl, hrest⟩ := List.cons.inj h
      rw [(List.append_eq_nil_iff.mp hrest).1]
      exact ⟨some a, rfl⟩

theorem once_eq_ok_iff (h : Undoes read encode) {name : String} {old new : Option α} :
    once name old (read v) = .ok new ↔ written encode old ++ [v] = written encode new := by
  cases old with
  | some a => cases new <;> simp [once, written]
  | none =>
    simp only [once, map_eq_ok_iff, h v]
    cases new <;> simp [written]

theorem named_singleton {names : List String} {name : String} :
    named names [(name, v)] = if name ∈ names then [v] else [] := by
  by_cases h : name ∈ names <;> simp [named, h]

def Given (encode : α → Json) (values : List Json) (o : Option α) : Prop :=
  values = [] ∧ o = none ∨ values = [Json.ofOption encode o]

theorem given_iff {values : List Json} {o : Option α} : Given encode values o ↔
    ∃ o', values = written (Json.ofOption encode) o' ∧ o'.getD none = o := by
  constructor
  · rintro (⟨rfl, rfl⟩ | rfl)
    · exact ⟨none, rfl, rfl⟩
    · exact ⟨some o, rfl, rfl⟩
  · rintro ⟨o', rfl, rfl⟩
    cases o' with
    | none => exact .inl ⟨rfl, rfl⟩
    | some o => exact .inr rfl

theorem required_eq_ok_iff {name : String} {o : Option α} {a : α} :
    required name o = .ok a ↔ o = some a := by
  cases o <;> simp [required]

/-! Fields of arrays. -/

theorem nextOr_cons_eq_ok_iff (h : Undoes read encode) {missing : Shaped α}
    {items rest : List Json} {a : α} :
    nextOr missing read (v :: items) = .ok (a, rest) ↔ v :: items = encode a :: rest := by
  simp only [nextOr, map_eq_ok_iff, h v, List.cons.injEq, Prod.mk.injEq]
  constructor
  · rintro ⟨_, hv, rfl, hrest⟩
    exact ⟨hv, hrest⟩
  · rintro ⟨hv, hrest⟩
    exact ⟨a, hv, rfl, hrest⟩

theorem nextOr_error_eq_ok_iff (h : Undoes read encode) {fault : ShapeError}
    {items rest : List Json} {a : α} :
    nextOr (.error fault) read items = .ok (a, rest) ↔ items = encode a :: rest := by
  cases items with
  | nil => simp [nextOr, map_eq_ok_iff]
  | cons v items => exact nextOr_cons_eq_ok_iff h

theorem nextOr_ok_eq_ok_iff (h : Undoes read encode) {default : α} {items rest : List Json}
    {a : α} : nextOr (.ok default) read items = .ok (a, rest) ↔
      items = [] ∧ a = default ∧ rest = [] ∨ items = encode a :: rest := by
  cases items with
  | nil => simp [nextOr, Except.map, eq_comm]
  | cons v items => simpa using nextOr_cons_eq_ok_iff h

theorem noMore_eq_ok_iff {count : Nat} {items : List Json} {u : Unit} :
    noMore count items = .ok u ↔ items = [] := by
  cases items <;> simp [noMore]

end Manuscript.Record
