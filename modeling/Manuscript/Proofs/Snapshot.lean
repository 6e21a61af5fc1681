import Mathlib.Data.List.Basic
import Mathlib.Data.List.Induction
import Manuscript.Snapshot

/-! Runs of a snapshot cache. A call keeps what is held, puts a new snapshot in its place or drops
it, and a snapshot that was replaced or dropped is never served again. So what is held is what the
last request since the last clearing was served, and a request is served the snapshot of an earlier
one exactly if every call in between keeps it. -/
namespace Manuscript.Snapshot

structure Request where
  headings : List Heading
  sources : List Source
  deriving DecidableEq, Repr

def Request.indices (r : Request) : Indices := Indices.build r.headings r.sources

inductive Call
  | request (r : Request)
  | current
  | clear
  deriving DecidableEq, Repr

namespace Cache

inductive Answer
  | served (s : Served)
  | held (s : Option Snapshot)
  | cleared

section
variable {φ : Type} [DecidableEq φ] (fingerprint : Request → φ)

def answer (c : Cache φ) : Call → Answer × Cache φ
  | .request r =>
    let (s, c) := c.getOrBuild (fingerprint r) fun _ => r.indices
    (.served s, c)
  | .current => (.held c.current?, c)
  | .clear => (.cleared, c.clear)

def after (c : Cache φ) (calls : List Call) : Cache φ :=
  calls.foldl (fun c call => (answer fingerprint c call).2) c

def answers (c : Cache φ) : List Call → List Answer
  | [] => []
  | call :: calls =>
    (answer fingerprint c call).1 :: answers (answer fingerprint c call).2 calls

end

variable {φ : Type} {fingerprint : Request → φ} {c c' : Cache φ} {f : φ} {s : Snapshot}
variable {r r' : Request} {a : Answer} {served : Served} {call : Call} {calls : List Call}
variable {i j : Nat}

/-! One call. -/

inductive Step (fingerprint : Request → φ) (c : Cache φ) : Call → Answer → Cache φ → Prop
  | hit {r : Request} {s : Snapshot} : c.slot = some (fingerprint r, s) →
      Step fingerprint c (.request r) (.served ⟨s, false⟩) c
  | miss {r : Request} : (∀ s, c.slot ≠ some (fingerprint r, s)) →
      Step fingerprint c (.request r) (.served ⟨⟨c.built, r.indices⟩, true⟩)
        ⟨c.built + 1, some (fingerprint r, ⟨c.built, r.indices⟩)⟩
  | current : Step fingerprint c .current (.held (c.slot.map Prod.snd)) c
  | clear : Step fingerprint c .clear .cleared ⟨c.built, none⟩

theorem step [DecidableEq φ] (fingerprint : Request → φ) (c : Cache φ) (call : Call) :
    Step fingerprint c call (answer fingerprint c call).1 (answer fingerprint c call).2 := by
  cases call with
  | current => exact .current
  | clear => exact .clear
  | request r =>
    have hmiss (h : ∀ s, c.slot ≠ some (fingerprint r, s)) :
        Step fingerprint c (.request r) (.served (c.rebuild (fingerprint r) r.indices).1)
          (c.rebuild (fingerprint r) r.indices).2 := .miss h
    cases hslot : c.slot with
    | none =>
      simp only [answer, getOrBuild, hslot]
      exact hmiss fun s hs => by simp [hslot] at hs
    | some held =>
      obtain ⟨cached, s⟩ := held
      simp only [answer, getOrBuild, hslot]
      split
      · next hf => exact .hit (hf ▸ hslot)
      · next hf => exact hmiss fun s hs => by simp_all

theorem Step.slot_eq (h : Step fingerprint c (.request r) (.served served) c') :
    c'.slot = some (fingerprint r, served.snapshot) := by
  cases h with
  | hit hs => exact hs
  | miss hno => rfl

theorem Step.built_iff (h : Step fingerprint c (.request r) (.served served) c') :
    served.built = true ↔ ∀ s, c.slot ≠ some (fingerprint r, s) := by
  cases h with
  | hit hs =>
    constructor
    · intro hbuilt
      cases hbuilt
    · intro hno
      exact absurd hs (hno _)
  | miss hno => exact ⟨fun _ => hno, fun _ => rfl⟩

def Fresh (c : Cache φ) : Prop := ∀ f s, c.slot = some (f, s) → s.id < c.built

theorem fresh_empty : Fresh (empty : Cache φ) := by
  intro f s hs
  cases hs

theorem Step.fresh (h : Step fingerprint c call a c') (hc : Fresh c) : Fresh c' := by
  cases h with
  | hit => exact hc
  | current => exact hc
  | miss =>
    intro f s hs
    cases hs
    exact Nat.lt_succ_self c.built
  | clear =>
    intro f s hs
    cases hs

structure Retired (id : Nat) (c : Cache φ) : Prop where
  old : id < c.built
  absent : ∀ f s, c.slot = some (f, s) → s.id ≠ id

theorem Step.retired {id : Nat} (h : Step fingerprint c call a c') (hc : Retired id c) :
    Retired id c' := by
  cases h with
  | hit => exact hc
  | current => exact hc
  | miss =>
    refine ⟨Nat.lt_succ_of_lt hc.old, ?_⟩
    intro f s hs
    cases hs
    exact Nat.ne_of_gt hc.old
  | clear =>
    refine ⟨hc.old, ?_⟩
    intro f s hs
    cases hs

theorem Step.id_ne_of_retired {id : Nat}
    (h : Step fingerprint c (.request r) (.served served) c') (hc : Retired id c) :
    served.snapshot.id ≠ id := by
  cases h with
  | hit hs => exact hc.absent _ _ hs
  | miss => exact Nat.ne_of_gt hc.old

def Keeps (fingerprint : Request → φ) (f : φ) : Call → Prop
  | .request r => fingerprint r = f
  | .current => True
  | .clear => False

theorem Step.eq_of_keeps (h : Step fingerprint c call a c') (hs : c.slot = some (f, s))
    (hk : Keeps fingerprint f call) : c' = c := by
  cases h with
  | hit => rfl
  | current => rfl
  | miss hno =>
    obtain rfl : _ = f := hk
    exact absurd hs (hno s)
  | clear => exact hk.elim

theorem Step.retired_of_not_keeps (h : Step fingerprint c call a c') (hs : c.slot = some (f, s))
    (hc : Fresh c) (hk : ¬ Keeps fingerprint f call) : Retired s.id c' := by
  have hlt : s.id < c.built := hc f s hs
  cases h with
  | hit hs' =>
    rw [hs] at hs'
    cases hs'
    exact absurd rfl hk
  | current => exact absurd trivial hk
  | miss hno =>
    refine ⟨Nat.lt_succ_of_lt hlt, ?_⟩
    intro f' s' hs'
    cases hs'
    exact Nat.ne_of_gt hlt
  | clear =>
    refine ⟨hlt, ?_⟩
    intro f' s' hs'
    cases hs'

def BuiltFrom (fingerprint : Request → φ) (calls : List Call) (c : Cache φ) : Prop :=
  ∀ f s, c.slot = some (f, s) →
    ∃ r, .request r ∈ calls ∧ fingerprint r = f ∧ s.indices = r.indices

theorem Step.builtFrom (h : Step fingerprint c call a c') (hcall : call ∈ calls)
    (hc : BuiltFrom fingerprint calls c) : BuiltFrom fingerprint calls c' := by
  cases h with
  | hit => exact hc
  | current => exact hc
  | miss =>
    intro f s hs
    cases hs
    exact ⟨_, hcall, rfl, rfl⟩
  | clear =>
    intro f s hs
    cases hs

theorem Step.indices_eq (h : Step fingerprint c (.request r) (.served served) c')
    (hc : BuiltFrom fingerprint calls c)
    (hr : ∀ r', .request r' ∈ calls → fingerprint r' = fingerprint r → r' = r) :
    served.snapshot.indices = r.indices := by
  cases h with
  | hit hs =>
    obtain ⟨r', hr', hf, hindices⟩ := hc _ _ hs
    rw [← hr r' hr' hf]
    exact hindices
  | miss => rfl

/-! Runs of calls. -/

section
variable [DecidableEq φ]

theorem after_append (c : Cache φ) (calls more : List Call) :
    after fingerprint c (calls ++ more) = after fingerprint (after fingerprint c calls) more :=
  List.foldl_append

theorem getElem?_answers (c : Cache φ) (calls : List Call) (i : Nat) :
    (answers fingerprint c calls)[i]? = calls[i]?.map fun call =>
      (answer fingerprint (after fingerprint c (calls.take i)) call).1 := by
  induction calls generalizing c i with
  | nil => rfl
  | cons call calls ih =>
    cases i with
    | zero => rfl
    | succ i => exact ih (answer fingerprint c call).2 i

theorem fresh_after (hc : Fresh c) (calls : List Call) : Fresh (after fingerprint c calls) := by
  induction calls generalizing c with
  | nil => exact hc
  | cons call calls ih => exact ih ((step fingerprint c call).fresh hc)

theorem retired_after {id : Nat} (hc : Retired id c) (calls : List Call) :
    Retired id (after fingerprint c calls) := by
  induction calls generalizing c with
  | nil => exact hc
  | cons call calls ih => exact ih ((step fingerprint c call).retired hc)

theorem builtFrom_after {all : List Call} (hall : calls ⊆ all) (hc : BuiltFrom fingerprint all c) :
    BuiltFrom fingerprint all (after fingerprint c calls) := by
  induction calls generalizing c with
  | nil => exact hc
  | cons call calls ih =>
    obtain ⟨hcall, hcalls⟩ := List.cons_subset.mp hall
    exact ih hcalls ((step fingerprint c call).builtFrom hcall hc)

theorem after_of_keeps (hs : c.slot = some (f, s))
    (hk : ∀ call ∈ calls, Keeps fingerprint f call) : after fingerprint c calls = c := by
  induction calls with
  | nil => rfl
  | cons call calls ih =>
    obtain ⟨hcall, hcalls⟩ := List.forall_mem_cons.mp hk
    rw [after, List.foldl_cons, (step fingerprint c call).eq_of_keeps hs hcall]
    exact ih hcalls

theorem retired_after_of_not_keeps (hs : c.slot = some (f, s)) (hc : Fresh c)
    (hk : ¬ ∀ call ∈ calls, Keeps fingerprint f call) :
    Retired s.id (after fingerprint c calls) := by
  induction calls with
  | nil => exact absurd (List.forall_mem_nil _) hk
  | cons call calls ih =>
    rw [after, List.foldl_cons]
    by_cases hcall : Keeps fingerprint f call
    · rw [(step fingerprint c call).eq_of_keeps hs hcall]
      exact ih fun hcalls => hk (List.forall_mem_cons.mpr ⟨hcall, hcalls⟩)
    · exact retired_after ((step fingerprint c call).retired_of_not_keeps hs hc hcall) calls

/-- After any calls, a request is served the snapshot that was held before them exactly if it has
its fingerprint and every call keeps it. -/
theorem served_again_iff (hs : c.slot = some (f, s)) (hc : Fresh c)
    (h : Step fingerprint (after fingerprint c calls) (.request r) (.served served) c') :
    served.snapshot.id = s.id ↔
      fingerprint r = f ∧ ∀ call ∈ calls, Keeps fingerprint f call := by
  by_cases hk : ∀ call ∈ calls, Keeps fingerprint f call
  · rw [after_of_keeps hs hk] at h
    by_cases hr : Keeps fingerprint f (.request r)
    · have hslot := h.slot_eq
      rw [h.eq_of_keeps hs hr, hs] at hslot
      cases hslot
      exact ⟨fun _ => ⟨rfl, hk⟩, fun _ => rfl⟩
    · have hne := (h.retired_of_not_keeps hs hc hr).absent _ _ h.slot_eq
      exact ⟨fun heq => absurd heq hne, fun heq => absurd heq.1 hr⟩
  · have hne := h.id_ne_of_retired (retired_after_of_not_keeps hs hc hk)
    exact ⟨fun heq => absurd heq hne, fun heq => absurd heq.2 hk⟩

/-! Calls by their place in a run. -/

theorem step_at (fingerprint : Request → φ) (c : Cache φ) (h : calls[i]? = some call) :
    ∃ a, (answers fingerprint c calls)[i]? = some a ∧
      Step fingerprint (after fingerprint c (calls.take i)) call a
        (after fingerprint c (calls.take (i + 1))) := by
  refine ⟨_, by rw [getElem?_answers, h, Option.map_some], ?_⟩
  rw [List.take_add_one, h, Option.toList_some, after_append]
  exact step fingerprint _ call

theorem step_at_request (fingerprint : Request → φ) (c : Cache φ)
    (h : calls[i]? = some (.request r)) :
    ∃ served, (answers fingerprint c calls)[i]? = some (.served served) ∧
      Step fingerprint (after fingerprint c (calls.take i)) (.request r) (.served served)
        (after fingerprint c (calls.take (i + 1))) := by
  obtain ⟨a, ha, hstep⟩ := step_at fingerprint c h
  cases a with
  | served served => exact ⟨served, ha, hstep⟩
  | held => nomatch hstep
  | cleared => nomatch hstep

/-- The call at `j` asks for `r`, and only the current snapshot was read between it and `i`. -/
structure Latest (calls : List Call) (j : Nat) (r : Request) (i : Nat) : Prop where
  before : j < i
  request : calls[j]? = some (.request r)
  between : ∀ k, j < k → k < i → calls[k]? = some .current

theorem latest_succ_iff : Latest calls j r (i + 1) ↔
    (j = i ∧ calls[i]? = some (.request r)) ∨ (calls[i]? = some .current ∧ Latest calls j r i) := by
  constructor
  · intro hl
    rcases Nat.lt_succ_iff_lt_or_eq.mp hl.before with hj | rfl
    · exact .inr ⟨hl.between i hj (Nat.lt_succ_self i), hj, hl.request,
        fun k hjk hki => hl.between k hjk (Nat.lt_succ_of_lt hki)⟩
    · exact .inl ⟨rfl, hl.request⟩
  · rintro (⟨rfl, hr⟩ | ⟨hcurrent, hl⟩)
    · exact ⟨Nat.lt_succ_self j, hr, fun k hjk hkj => by omega⟩
    · refine ⟨Nat.lt_succ_of_lt hl.before, hl.request, ?_⟩
      intro k hjk hki
      rcases Nat.lt_succ_iff_lt_or_eq.mp hki with hki | rfl
      · exact hl.between k hjk hki
      · exact hcurrent

theorem slot_after_iff (hi : i ≤ calls.length) :
    (after fingerprint empty (calls.take i)).slot = some (f, s) ↔
      ∃ j r served, Latest calls j r i ∧
        (answers fingerprint empty calls)[j]? = some (.served served) ∧
        fingerprint r = f ∧ served.snapshot = s := by
  induction i with
  | zero =>
    constructor
    · intro hs
      cases hs
    · rintro ⟨j, r, served, hl, -⟩
      exact absurd hl.before (Nat.not_lt_zero j)
  | succ i ih =>
    have hcall : calls[i]? = some calls[i] := List.getElem?_eq_getElem hi
    obtain ⟨a, ha, hstep⟩ := step_at fingerprint empty hcall
    generalize calls[i] = call at hcall hstep
    cases call with
    | request r =>
      obtain ⟨served, hserved, hstep⟩ := step_at_request fingerprint empty hcall
      rw [hstep.slot_eq]
      constructor
      · intro hs
        cases hs
        exact ⟨i, r, served, latest_succ_iff.mpr (.inl ⟨rfl, hcall⟩), hserved, rfl, rfl⟩
      · rintro ⟨j, r', served', hl, hserved', rfl, rfl⟩
        rcases latest_succ_iff.mp hl with ⟨rfl, hr⟩ | ⟨hcurrent, -⟩
        · rw [hcall] at hr
          cases hr
          rw [hserved] at hserved'
          cases hserved'
          rfl
        · rw [hcall] at hcurrent
          cases hcurrent
    | current =>
      have hlatest : ∀ j r, Latest calls j r (i + 1) ↔ Latest calls j r i := by
        intro j r
        simp [latest_succ_iff, hcall]
      generalize after fingerprint empty (calls.take (i + 1)) = c' at hstep ⊢
      cases hstep with
      | current =>
        simp only [hlatest]
        exact ih (Nat.le_of_succ_le hi)
    | clear =>
      generalize after fingerprint empty (calls.take (i + 1)) = c' at hstep ⊢
      cases hstep with
      | clear =>
        constructor
        · intro hs
          cases hs
        · rintro ⟨j, r, served, hl, -⟩
          simp [latest_succ_iff, hcall] at hl

theorem mem_between : call ∈ (calls.take j).drop (i + 1) ↔
    ∃ k, i < k ∧ k < j ∧ calls[k]? = some call := by
  rw [List.mem_iff_getElem?]
  constructor
  · rintro ⟨n, hn⟩
    rw [List.getElem?_drop, List.getElem?_take] at hn
    split at hn
    · next hlt => exact ⟨i + 1 + n, by omega, hlt, hn⟩
    · cases hn
  · rintro ⟨k, hik, hkj, hk⟩
    refine ⟨k - (i + 1), ?_⟩
    rw [List.getElem?_drop, Nat.add_sub_cancel' hik, List.getElem?_take, if_pos hkj, hk]

theorem indices_of_run
    (hinj : ∀ r r', .request r ∈ calls → .request r' ∈ calls →
      fingerprint r = fingerprint r' → r = r')
    (hi : calls[i]? = some (.request r))
    (h : Step fingerprint (after fingerprint empty (calls.take i)) (.request r)
      (.served served) c') :
    served.snapshot.indices = r.indices := by
  have hempty : BuiltFrom fingerprint calls (empty : Cache φ) := by
    intro f s hs
    cases hs
  exact h.indices_eq (builtFrom_after (List.take_subset i calls) hempty)
    fun r' hr' => hinj r' r hr' (List.mem_of_getElem? hi)

theorem built_of_run (hi : calls[i]? = some (.request r))
    (h : Step fingerprint (after fingerprint empty (calls.take i)) (.request r)
      (.served served) c') :
    served.built = true ↔ ∀ j r', Latest calls j r' i → fingerprint r' ≠ fingerprint r := by
  have hle : i ≤ calls.length := Nat.le_of_lt (List.getElem?_eq_some_iff.mp hi).1
  rw [h.built_iff]
  constructor
  · intro hno j r' hl hf
    obtain ⟨served', hserved', -⟩ := step_at_request fingerprint empty hl.request
    exact hno _ ((slot_after_iff hle).mpr ⟨j, r', served', hl, hserved', hf, rfl⟩)
  · intro hno s hs
    obtain ⟨j, r', served', hl, -, hf, -⟩ := (slot_after_iff hle).mp hs
    exact hno j r' hl hf

theorem same_snapshot_of_run {served' : Served} (hij : i < j)
    (h : Step fingerprint (after fingerprint empty (calls.take i)) (.request r) (.served served)
      (after fingerprint empty (calls.take (i + 1))))
    (h' : Step fingerprint (after fingerprint empty (calls.take j)) (.request r')
      (.served served') c') :
    served'.snapshot.id = served.snapshot.id ↔
      fingerprint r' = fingerprint r ∧ ∀ k call, i < k → k < j → calls[k]? = some call →
        Keeps fingerprint (fingerprint r) call := by
  have hsplit : calls.take j = calls.take (i + 1) ++ (calls.take j).drop (i + 1) := by
    have := List.take_append_drop (i + 1) (calls.take j)
    rwa [List.take_take, Nat.min_eq_left hij, eq_comm] at this
  rw [hsplit, after_append] at h'
  rw [served_again_iff h.slot_eq (fresh_after fresh_empty _) h']
  refine and_congr_right fun _ => ⟨?_, ?_⟩
  · intro hk k call hik hkj hcall
    exact hk call (mem_between.mpr ⟨k, hik, hkj, hcall⟩)
  · intro hk call hcall
    obtain ⟨k, hik, hkj, hget⟩ := mem_between.mp hcall
    exact hk k call hik hkj hget

theorem held_of_run (hi : calls[i]? = some .current) (s : Snapshot) :
    (after fingerprint empty (calls.take i)).slot.map Prod.snd = some s ↔
      ∃ j r served, Latest calls j r i ∧
        (answers fingerprint empty calls)[j]? = some (.served served) ∧ served.snapshot = s := by
  have hle : i ≤ calls.length := Nat.le_of_lt (List.getElem?_eq_some_iff.mp hi).1
  rw [Option.map_eq_some_iff]
  constructor
  · rintro ⟨⟨f, s⟩, hs, rfl⟩
    obtain ⟨j, r, served, hl, hserved, -, rfl⟩ := (slot_after_iff hle).mp hs
    exact ⟨j, r, served, hl, hserved, rfl⟩
  · rintro ⟨j, r, served, hl, hserved, rfl⟩
    exact ⟨_, (slot_after_iff hle).mpr ⟨j, r, served, hl, hserved, rfl, rfl⟩, rfl⟩

/-- In a run whose requests have fingerprints of their own, every request is served its own indices.
They are built anew unless the latest request had the same fingerprint, one object is served as long
as every call keeps it, and the current snapshot is that of the latest request. -/
theorem run_coherent (fingerprint : Request → φ) (calls : List Call)
    (hinj : ∀ r r', .request r ∈ calls → .request r' ∈ calls →
      fingerprint r = fingerprint r' → r = r') :
    let run := answers fingerprint empty calls
    (∀ i r, calls[i]? = some (.request r) → ∃ served, run[i]? = some (.served served) ∧
      served.snapshot.indices = r.indices ∧
      (served.built = true ↔ ∀ j r', Latest calls j r' i → fingerprint r' ≠ fingerprint r)) ∧
    (∀ (i j : Nat) r r' served served', i < j →
      calls[i]? = some (.request r) → run[i]? = some (.served served) →
      calls[j]? = some (.request r') → run[j]? = some (.served served') →
      (served'.snapshot.id = served.snapshot.id ↔
        fingerprint r' = fingerprint r ∧ ∀ k call, i < k → k < j → calls[k]? = some call →
          Keeps fingerprint (fingerprint r) call)) ∧
    ∀ i, calls[i]? = some .current → ∃ held, run[i]? = some (.held held) ∧
      ∀ s, held = some s ↔ ∃ j r served, Latest calls j r i ∧
        run[j]? = some (.served served) ∧ served.snapshot = s := by
  intro run
  refine ⟨?_, ?_, ?_⟩
  · intro i r hi
    obtain ⟨served, hserved, hstep⟩ := step_at_request fingerprint empty hi
    exact ⟨served, hserved, indices_of_run hinj hi hstep, built_of_run hi hstep⟩
  · intro i j r r' served served' hij hi hserved hj hserved'
    obtain ⟨a, ha, hstep⟩ := step_at_request fingerprint empty hi
    obtain ⟨a', ha', hstep'⟩ := step_at_request fingerprint empty hj
    cases hserved.symm.trans ha
    cases hserved'.symm.trans ha'
    exact same_snapshot_of_run hij hstep hstep'
  · intro i hi
    refine ⟨(after fingerprint empty (calls.take i)).slot.map Prod.snd, ?_, held_of_run hi⟩
    rw [getElem?_answers, hi]
    rfl

theorem run_coherent_second_build :
    let a : Request := ⟨[], []⟩
    let b : Request := ⟨[], [⟨"k", ""⟩]⟩
    let fingerprint (r : Request) : Nat := r.sources.length
    let calls : List Call := [.request a, .request b, .request a, .current, .request a]
    (∀ r r', .request r ∈ calls → .request r' ∈ calls → fingerprint r = fingerprint r' → r = r') ∧
      ∃ served, (answers fingerprint empty calls)[2]? = some (.served served) ∧
        served.snapshot.indices = a.indices ∧ served.built = true := by
  intro a b fingerprint calls
  have hcalls : ∀ r, .request r ∈ calls → r = a ∨ r = b := by
    intro r hr
    simp only [calls, List.mem_cons, Call.request.injEq, List.not_mem_nil, reduceCtorEq] at hr
    tauto
  have hinj : ∀ r r', .request r ∈ calls → .request r' ∈ calls →
      fingerprint r = fingerprint r' → r = r' := by
    intro r r' hr hr' hf
    rcases hcalls r hr with rfl | rfl <;> rcases hcalls r' hr' with rfl | rfl
    · rfl
    · cases hf
    · cases hf
    · rfl
  obtain ⟨served, hserved, hindices, hbuilt⟩ := (run_coherent fingerprint calls hinj).1 2 a rfl
  refine ⟨hinj, served, hserved, hindices, hbuilt.mpr ?_⟩
  intro j r hl
  have hj : j = 1 := by
    by_contra hne
    have hj := hl.before
    have := hl.between 1 (by omega) (by omega)
    cases this
  subst hj
  cases hl.request
  decide

end

end Cache
end Manuscript.Snapshot
