import Manuscript.Proofs.Markup.Offset.Scan
import Manuscript.Markup.Lexer

/-! The lexer on byte offsets. It moves through the bytes of a text, cuts each token out by a pair of
offsets and remembers for each fence an offset behind which no closer lies. Every byte it reads, every
cut and every difference is checked, so a run ends in a fault where one of them is out of place. -/
namespace Manuscript.Markup.Offset

open Manuscript.Text

structure State where
  pos : Nat
  textStart : Nat
  tokens : List Token
  absent : Fence → Option Nat

def State.start : State := ⟨0, 0, [], fun _ => none⟩

def State.push (st : State) (tokens : List Token) : State := { st with tokens := st.tokens ++ tokens }

def State.resume (st : State) (stop : Nat) : State := { st with pos := stop, textStart := stop }

def flushText (src : List Char) (st : State) (upto : Nat) : Checked State :=
  if st.textStart < upto then do
    let text ← slice src st.textStart upto
    .ok (st.push [.text (String.ofList text)])
  else .ok st

def emit (src : List Char) (st : State) (start stop : Nat) (token : Token) : Checked State := do
  let st ← flushText src st start
  .ok ((st.push [token]).resume stop)

def emitUnknown (src : List Char) (st : State) (start stop : Nat) : Checked State := do
  let raw ← slice src start stop
  emit src st start stop (.unknown (String.ofList raw))

def emitMath (src : List Char) (st : State) (start stop opener closer : Nat) (inline : Bool) :
    Checked State := do
  let texStop ← difference stop closer
  let tex ← slice src (start + opener) texStop
  if trim tex = [] then emitUnknown src st start stop
  else do
    let raw ← slice src start stop
    emit src st start stop (.math (String.ofList tex) inline (String.ofList raw))

/-- Where the closer of a fence starts. An offset that no character starts at is answered as one with
no closer behind it. -/
def findCached (src : List Char) (st : State) (f : Fence) (i : Nat) : Option Nat × State :=
  if (st.absent f).any (· ≤ i) then (none, st)
  else match (dropBytes i src).bind (cut f.closer) with
    | some (before, _) => (some (i + byteLength before), st)
    | none => (none, { st with absent := fun g => if g = f then some i else st.absent g })

def lexFence (src : List Char) (st : State) (f : Fence) : Checked State :=
  match findCached src st f (st.pos + 2) with
  | (some close, st) => emitMath src st st.pos (close + 2) 2 2 f.isInline
  | (none, st) => emitUnknown src st st.pos (st.pos + 2)

def lexDollar (src : List Char) (st : State) : Checked State :=
  if peek src (st.pos + 1) = some (ascii '$') then lexFence src st .dollars
  else do
    match ← findInlineDollar src (st.pos + 1) with
    | some close => emitMath src st st.pos (close + 1) 1 1 true
    | none => emitUnknown src st st.pos (st.pos + 1)

structure Piece where
  index : Nat
  start : Nat
  stop : Nat
  key : List Char

def pieces (index start : Nat) : List (List Char) → Option (List Piece)
  | [] => some []
  | part :: parts =>
    if isIdentifier (trim part) then
      let stop := start + byteLength part
      (pieces (index + 1) (stop + 1) parts).map (⟨index, start, stop, trim part⟩ :: ·)
    else none

def Piece.rawStart (p : Piece) (start : Nat) : Checked Nat :=
  if p.index = 0 then .ok start else difference p.start 1

def Piece.rawStop (p : Piece) (last stop : Nat) : Nat := if p.index = last then stop else p.stop

def citationToken (src : List Char) (start stop last : Nat) (p : Piece) : Checked Token := do
  let rawStart ← p.rawStart start
  let raw ← slice src rawStart (p.rawStop last stop)
  .ok (.citation (String.ofList p.key) (String.ofList raw))

def emitCitations (src : List Char) (st : State) (start argStart argStop stop : Nat) :
    Checked State := do
  let argument ← slice src argStart argStop
  let (part, more) := commaParts argument
  match pieces 0 argStart (part :: more) with
  | none => emitUnknown src st start stop
  | some found => do
    let last ← difference found.length 1
    let st ← flushText src st start
    let tokens ← found.mapM (citationToken src start stop last)
    .ok ((st.push tokens).resume stop)

def emitReference (src : List Char) (st : State) (start argStart argStop stop : Nat) :
    Checked State := do
  let argument ← slice src argStart argStop
  if isIdentifier (trim argument) then do
    let raw ← slice src start stop
    emit src st start stop (.reference (String.ofList (trim argument)) (String.ofList raw))
  else emitUnknown src st start stop

def lexEnvironment (src : List Char) (st : State) (start bodyStart : Nat) (e : Environment) :
    Checked State :=
  match findCached src st (.environment e) bodyStart with
  | (none, st) => emitUnknown src st start bodyStart
  | (some close, st) => do
    let stop := close + byteLength (Fence.environment e).closer
    let body ← slice src bodyStart close
    if trim body = [] then emitUnknown src st start stop
    else do
      let tex ← if e.keepsDelimiters then slice src start stop else slice src bodyStart close
      let raw ← slice src start stop
      emit src st start stop (.math (String.ofList tex) false (String.ofList raw))

def findGroup (src : List Char) (i : Nat) : Checked (Option Nat) :=
  if peek src i = some (ascii '{') then findGroupClose src (i + 1) else .ok none

def lexArgument (src : List Char) (st : State) (start nameStop close : Nat) (name : List Char) :
    Checked State :=
  if name = "begin".toList then do
    let environment ← slice src (nameStop + 1) close
    match Environment.named? environment with
    | some e => lexEnvironment src st start (close + 1) e
    | none => emitUnknown src st start (close + 1)
  else if isCiteCommand name then emitCitations src st start (nameStop + 1) close (close + 1)
  else if isRefCommand name then emitReference src st start (nameStop + 1) close (close + 1)
  else emitUnknown src st start (close + 1)

def lexCommand (src : List Char) (st : State) (start : Nat) : Checked State := do
  let nameStop ← skipLetters src (byteLength src) (start + 1)
  let name ← slice src (start + 1) nameStop
  match ← findGroup src nameStop with
  | none => emitUnknown src st start nameStop
  | some close => lexArgument src st start nameStop close name

def lexBackslash (src : List Char) (st : State) : Checked State :=
  match peek src (st.pos + 1) with
  | none => emitUnknown src st st.pos (st.pos + 1)
  | some b =>
    if b = ascii '$' then .ok { st with pos := st.pos + 2 }
    else if b = ascii '(' then lexFence src st .paren
    else if b = ascii '[' then lexFence src st .bracket
    else if isLetterByte b then lexCommand src st st.pos
    else do
      let rest ← sliceFrom src (st.pos + 1)
      let width := match rest with
        | [] => 1
        | c :: _ => c.utf8Size
      emitUnknown src st st.pos (st.pos + 1 + width)

def lexAt (src : List Char) (st : State) (start : Nat) : Checked State := do
  match ← findBracketClose src (start + 2) with
  | none => emitUnknown src st start (start + 2)
  | some close => do
    let argument ← slice src (start + 2) close
    if isIdentifier (trim argument) then do
      let raw ← slice src start (close + 1)
      emit src st start (close + 1)
        (.citation (String.ofList (trim argument)) (String.ofList raw))
    else emitUnknown src st start (close + 1)

def lexMacro (src : List Char) (st : State) (start colon : Nat) : Checked State := do
  match ← findBracketClose src (colon + 1) with
  | none => emitUnknown src st start (colon + 1)
  | some close => do
    let name ← slice src (start + 1) colon
    if name = "cite".toList then emitCitations src st start (colon + 1) close (close + 1)
    else if name = "ref".toList then emitReference src st start (colon + 1) close (close + 1)
    else emitUnknown src st start (close + 1)

/-- Nothing is consumed where no colon follows the name: the bracket is prose. -/
def lexNamedBracket (src : List Char) (st : State) (start : Nat) : Checked (Option State) := do
  let colon ← skipLetters src (min (start + 1 + argumentLimit) (byteLength src)) (start + 1)
  if peek src colon = some (ascii ':') then (lexMacro src st start colon).map some
  else .ok none

def lexBracket (src : List Char) (st : State) : Checked (Option State) :=
  match peek src (st.pos + 1) with
  | none => .ok none
  | some b =>
    if b = ascii '@' then (lexAt src st st.pos).map some
    else if isLetterByte b then lexNamedBracket src st st.pos
    else .ok none

def consume (src : List Char) (st : State) (b : UInt8) : Checked (Option State) :=
  if b = ascii '\\' then (lexBackslash src st).map some
  else if b = ascii '$' then (lexDollar src st).map some
  else if b = ascii '[' then lexBracket src st
  else .ok none

def step (src : List Char) (st : State) : Checked State := do
  let b ← byteAt src st.pos
  let consumed ← consume src st b
  .ok (consumed.getD { st with pos := st.pos + 1 })

/-- A step that does not go forward is a fault, so that every run ends. -/
def run (src : List Char) (st : State) : Checked (List Token) :=
  if st.pos < byteLength src then
    match step src st with
    | .error e => .error e
    | .ok next => if st.pos < next.pos then run src next else .error .stall
  else do
    let st ← flushText src st (byteLength src)
    .ok st.tokens
termination_by byteLength src - st.pos

def parse (text : String) : Checked (List Token) := run text.toList .start

end Manuscript.Markup.Offset
