import Manuscript.Proofs.Markup.Offset.Lexer

/-! What the byte lexer emits. While prose is pending and the position is where a macro starts, each
way of emitting succeeds and gives the tokens that the lexer along the characters gives. -/
namespace Manuscript.Markup.Offset

open Manuscript.Text

variable {src pending raw opener tex closer argument part rest s : List Char} {st : State}
  {i j index stop : Nat}

/-- The characters `pending` are prose not yet emitted, and `rest` starts at the position. -/
structure Pending (src : List Char) (st : State) (pending rest : List Char) : Prop where
  text : Starts src st.textStart (pending ++ rest)
  pos_eq : st.pos = st.textStart + byteLength pending

theorem Pending.starts (h : Pending src st pending rest) : Starts src st.pos rest :=
  h.text.after h.pos_eq

def flushed (pending : List Char) : List Token :=
  if pending = [] then [] else [.text (String.ofList pending)]

def State.emitted (st : State) (pending : List Char) (tokens : List Token) (stop : Nat) : State :=
  (st.push (flushed pending ++ tokens)).resume stop

theorem flushText_eq (h : Pending src st pending rest) :
    flushText src st st.pos = .ok (st.push (flushed pending)) := by
  by_cases hp : pending = []
  · have hpos := h.pos_eq
    rw [hp, byteLength_nil] at hpos
    rw [flushText, if_neg (by omega)]
    simp [flushed, hp, State.push]
  · have hpos := h.pos_eq
    have hlen := byteLength_pos_of_ne_nil hp
    rw [flushText, if_pos (by omega), slice_starts h.text hpos, ok_bind, flushed, if_neg hp]

theorem emit_eq (h : Pending src st pending rest) (stop : Nat) (token : Token) :
    emit src st st.pos stop token = .ok (st.emitted pending [token] stop) := by
  rw [emit, flushText_eq h, ok_bind]
  simp [State.emitted, State.push]

theorem emitUnknown_eq (h : Pending src st pending (raw ++ rest))
    (hstop : stop = st.pos + byteLength raw) :
    emitUnknown src st st.pos stop =
      .ok (st.emitted pending [.unknown (String.ofList raw)] stop) := by
  rw [emitUnknown, slice_starts h.starts hstop, ok_bind, emit_eq h]

theorem emitMath_eq (opener closer : List Char) (inline : Bool)
    (h : Pending src st pending (opener ++ (tex ++ (closer ++ rest))))
    (hstop : stop = st.pos + byteLength (opener ++ (tex ++ closer))) :
    emitMath src st st.pos stop (byteLength opener) (byteLength closer) inline =
      .ok (st.emitted pending
        [if allBlank tex then .unknown (String.ofList (opener ++ (tex ++ closer)))
          else .math (String.ofList tex) inline (String.ofList (opener ++ (tex ++ closer)))]
        stop) := by
  have hraw : Pending src st pending ((opener ++ (tex ++ closer)) ++ rest) := by
    simpa only [List.append_assoc] using h
  have hlen : stop = st.pos + byteLength opener + byteLength tex + byteLength closer := by
    rw [hstop, byteLength_append, byteLength_append]
    omega
  have hdiff : difference stop (byteLength closer) = .ok (stop - byteLength closer) :=
    if_pos (by omega)
  have htex : slice src (st.pos + byteLength opener) (stop - byteLength closer) = .ok tex :=
    slice_starts (h.starts.after rfl) (by omega)
  rw [emitMath, hdiff, ok_bind, htex, ok_bind]
  by_cases hblank : allBlank tex = true
  · rw [if_pos (trim_eq_nil_iff.mpr hblank), if_pos hblank]
    exact emitUnknown_eq hraw hstop
  · have htrim : trim tex ≠ [] := fun he => hblank (trim_eq_nil_iff.mp he)
    rw [if_neg htrim, if_neg hblank, slice_starts hraw.starts hstop, ok_bind]
    exact emit_eq hraw _ _

/-! Closers -/

def KnownAbsent (src : List Char) (absent : Fence → Option Nat) : Prop :=
  ∀ f p, absent f = some p → ∃ s, Starts src p s ∧ cut f.closer s = none

theorem knownAbsent_start (src : List Char) : KnownAbsent src State.start.absent := by
  intro f p hp
  cases hp

theorem knownAbsent_record {absent : Fence → Option Nat} (f : Fence)
    (hknown : KnownAbsent src absent) (h : Starts src i s) (hcut : cut f.closer s = none) :
    KnownAbsent src fun g => if g = f then some i else absent g := by
  intro g p hp
  dsimp only at hp
  by_cases hg : g = f
  · rw [if_pos hg] at hp
    cases hp
    exact ⟨s, h, hg ▸ hcut⟩
  · rw [if_neg hg] at hp
    exact hknown g p hp

theorem cut_eq_none_of_cached {f : Fence} (h : Starts src i s) (hknown : KnownAbsent src st.absent)
    (hcached : (st.absent f).any (· ≤ i) = true) : cut f.closer s = none := by
  cases hp : st.absent f with
  | none =>
    rw [hp] at hcached
    cases hcached
  | some p =>
    rw [hp] at hcached
    obtain ⟨t, ht, hcut⟩ := hknown f p hp
    obtain ⟨n, rfl⟩ := ht.drop_of_le h (of_decide_eq_true hcached)
    exact cut_drop_eq_none hcut n

theorem findCached_eq (f : Fence) (h : Starts src i s) (hknown : KnownAbsent src st.absent) :
    ∃ absent, KnownAbsent src absent ∧ findCached src st f i =
      ((cut f.closer s).map fun found => i + byteLength found.1, { st with absent }) := by
  by_cases hcached : (st.absent f).any (· ≤ i) = true
  · refine ⟨st.absent, hknown, ?_⟩
    rw [findCached, if_pos hcached, cut_eq_none_of_cached h hknown hcached]
    rfl
  · rw [findCached, if_neg hcached, dropBytes_starts h, Option.bind_some]
    cases hcut : cut f.closer s with
    | some found => exact ⟨st.absent, hknown, rfl⟩
    | none => exact ⟨_, knownAbsent_record f hknown h hcut, rfl⟩

/-! Openings -/

/-- The lexer goes on as the opening says. A fence is closed where its first closer lies. -/
def Follows (src : List Char) (st : State) (pending : List Char) (result : Checked State) :
    Opening → Prop
  | .prose run _ => result = .ok { st with pos := st.pos + byteLength run }
  | .macros tokens _ =>
    result = .ok (st.emitted pending tokens (st.pos + byteLength (source tokens)))
  | .fence f opener rest =>
    let token := (f.close opener rest (cut f.closer rest)).1
    ∃ absent, KnownAbsent src absent ∧ result =
      .ok ({ st with absent }.emitted pending [token] (st.pos + byteLength token.raw.toList))

theorem follows_unknown (raw : List Char) (h : Pending src st pending (raw ++ rest))
    (hstop : stop = st.pos + byteLength raw) :
    Follows src st pending (emitUnknown src st st.pos stop) (.unknown raw rest) := by
  have hsource : source [.unknown (String.ofList raw)] = raw := by simp [Token.raw]
  rw [Opening.unknown, Follows, emitUnknown_eq h hstop, hsource, hstop]

theorem follows_reference (h : Pending src st pending (opener ++ (argument ++ (closer ++ rest))))
    (hi : i = st.pos + byteLength opener) (hj : j = i + byteLength argument)
    (hstop : stop = j + byteLength closer) :
    Follows src st pending (emitReference src st st.pos i j stop)
      (reference opener argument closer rest) := by
  have hraw : Pending src st pending ((opener ++ (argument ++ closer)) ++ rest) := by
    simpa only [List.append_assoc] using h
  have hlen : stop = st.pos + byteLength (opener ++ (argument ++ closer)) := by
    rw [byteLength_append, byteLength_append]
    omega
  rw [emitReference, slice_starts (h.starts.after hi) hj, ok_bind, reference]
  by_cases hid : isIdentifier (trim argument) = true
  · have hsource : ∀ target, source [.reference target
        (String.ofList (opener ++ (argument ++ closer)))] = opener ++ (argument ++ closer) := by
      simp [Token.raw]
    rw [if_pos hid, if_pos hid, slice_starts hraw.starts hlen, ok_bind, Follows, emit_eq hraw,
      hsource, hlen]
  · rw [if_neg hid, if_neg hid]
    exact follows_unknown _ hraw hlen

/-! Citations -/

theorem pieces_eq_none {parts : List (List Char)} (start : Nat)
    (h : ¬ (parts.all fun p => isIdentifier (trim p)) = true) :
    pieces index start parts = none := by
  induction parts generalizing index start with
  | nil => exact absurd rfl h
  | cons part parts ih =>
    by_cases hid : isIdentifier (trim part) = true
    · have hparts : ¬ (parts.all fun p => isIdentifier (trim p)) = true := by
        simpa [hid] using h
      simp only [pieces, if_pos hid, ih _ hparts, Option.map_none]
    · rw [pieces, if_neg hid]

theorem citationToken_eq {start last : Nat} {p : Piece} (hsrc : Starts src i (raw ++ s))
    (hi : p.rawStart start = .ok i) (hstop : p.rawStop last stop = i + byteLength raw) :
    citationToken src start stop last p =
      .ok (.citation (String.ofList p.key) (String.ofList raw)) := by
  rw [citationToken, hi, ok_bind, slice_starts hsrc hstop, ok_bind]

theorem pieces_citationRow {more : List (List Char)} {start last : Nat}
    (hsrc : Starts src i (opener ++ (part ++ (more.flatMap (',' :: ·) ++ (closer ++ rest)))))
    (hi : (if index = 0 then .ok start else difference j 1) = (.ok i : Checked Nat))
    (hj : j = i + byteLength opener) (hlast : last = index + more.length)
    (hstop : stop =
      j + (byteLength part + (byteLength (more.flatMap (',' :: ·)) + byteLength closer)))
    (h : ((part :: more).all fun p => isIdentifier (trim p)) = true) :
    ∃ found, pieces index j (part :: more) = some found ∧ found.length = more.length + 1 ∧
      found.mapM (citationToken src start stop last) = .ok (citationRow opener closer part more) := by
  induction more generalizing index i j opener part with
  | nil =>
    let p : Piece := ⟨index, j, j + byteLength part, trim part⟩
    have hid : isIdentifier (trim part) = true := by simpa using h
    have hraw : Starts src i ((opener ++ (part ++ closer)) ++ rest) := by simpa using hsrc
    have hend : stop = i + byteLength (opener ++ (part ++ closer)) := by
      simp only [List.flatMap_nil, byteLength_nil, byteLength_append] at hstop ⊢
      omega
    have hp : p.rawStop last stop = i + byteLength (opener ++ (part ++ closer)) := by
      rw [Piece.rawStop, if_pos (by simp [p, hlast]), hend]
    refine ⟨[p], ?_, rfl, ?_⟩
    · simp [pieces, hid, p]
    · rw [List.mapM_cons, citationToken_eq (p := p) hraw hi hp]
      rfl
  | cons next more ih =>
    let p : Piece := ⟨index, j, j + byteLength part, trim part⟩
    rw [List.all_cons, Bool.and_eq_true] at h
    obtain ⟨hid, hmore⟩ := h
    rw [List.flatMap_cons, List.cons_append, List.cons_append, List.append_assoc] at hsrc
    rw [List.flatMap_cons, byteLength_append, byteLength_cons] at hstop
    rw [List.length_cons] at hlast
    have hraw : Starts src i ((opener ++ part) ++ (',' :: (next ++
        (more.flatMap (',' :: ·) ++ (closer ++ rest))))) := by simpa using hsrc
    have hend : j + byteLength part = i + byteLength (opener ++ part) := by
      rw [byteLength_append]
      omega
    have hp : p.rawStop last stop = i + byteLength (opener ++ part) := by
      have hne : p.index ≠ last := by
        simp only [p]
        omega
      rw [Piece.rawStop, if_neg hne, ← hend]
    -- each later piece begins behind its comma, which its token takes along
    have hcomma : ','.utf8Size = 1 := rfl
    have hback : (if index + 1 = 0 then .ok start else difference (j + byteLength part + 1) 1) =
        (.ok (j + byteLength part) : Checked Nat) := by
      rw [if_neg (by omega), difference, if_pos (by omega)]
      rfl
    have hnext : Starts src (j + byteLength part)
        ([','] ++ (next ++ (more.flatMap (',' :: ·) ++ (closer ++ rest)))) := hraw.after hend
    obtain ⟨found, hfound, hlen, htokens⟩ := ih hnext hback rfl (by omega) (by omega) hmore
    refine ⟨p :: found, ?_, ?_, ?_⟩
    · rw [pieces]
      simp only [if_pos hid, hfound, Option.map_some]
      rfl
    · rw [List.length_cons, hlen, List.length_cons]
    · rw [List.mapM_cons, citationToken_eq (p := p) hraw hi hp, ok_bind, htokens]
      rfl

theorem follows_citations (h : Pending src st pending (opener ++ (argument ++ (closer ++ rest))))
    (hi : i = st.pos + byteLength opener) (hj : j = i + byteLength argument)
    (hstop : stop = j + byteLength closer) :
    Follows src st pending (emitCitations src st st.pos i j stop)
      (citations opener argument closer rest) := by
  have hraw : Pending src st pending ((opener ++ (argument ++ closer)) ++ rest) := by
    simpa only [List.append_assoc] using h
  have hlen : stop = st.pos + byteLength (opener ++ (argument ++ closer)) := by
    rw [byteLength_append, byteLength_append]
    omega
  have hparts := commaParts_eq argument
  simp only [emitCitations, slice_starts (h.starts.after hi) hj, ok_bind, citations]
  generalize commaParts argument = parts at hparts ⊢
  obtain ⟨part, more⟩ := parts
  dsimp only at hparts ⊢
  by_cases hall : ((part :: more).all fun p => isIdentifier (trim p)) = true
  · have hsrc : Starts src st.pos
        (opener ++ (part ++ (more.flatMap (',' :: ·) ++ (closer ++ rest)))) := by
      have := h.starts
      rwa [← hparts, List.append_assoc] at this
    have hend : stop =
        i + (byteLength part + (byteLength (more.flatMap (',' :: ·)) + byteLength closer)) := by
      rw [hstop, hj, ← hparts, byteLength_append]
      omega
    have hlast : more.length = 0 + more.length := (Nat.zero_add _).symm
    obtain ⟨found, hfound, hcount, htokens⟩ :=
      pieces_citationRow hsrc (if_pos rfl) hi hlast hend hall
    have hdiff : difference found.length 1 = .ok more.length := by
      rw [difference, if_pos (by omega), hcount]
      rfl
    have hsource : source (citationRow opener closer part more) =
        opener ++ (argument ++ closer) := by
      rw [source_citationRow, ← hparts, List.append_assoc]
    rw [if_pos hall, hfound, Follows, hsource, ← hlen]
    simp only [hdiff, flushText_eq h, htokens, ok_bind]
    simp [State.emitted, State.push]
  · rw [if_neg hall, pieces_eq_none i hall]
    exact follows_unknown _ hraw hlen

end Manuscript.Markup.Offset
