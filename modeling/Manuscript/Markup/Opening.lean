import Manuscript.Markup.Argument
import Manuscript.Markup.Fence
import Manuscript.Markup.Identifier

/-! What begins at a place of the text: prose, finished macros, or a fence whose closer is still to
be found. Main statement: an opening takes at least one character and loses none. -/
namespace Manuscript.Markup

inductive Opening
  | prose (run rest : List Char)
  | macros (tokens : List Token) (rest : List Char)
  | fence (f : Fence) (opener rest : List Char)

namespace Opening

def rest : Opening → List Char
  | prose _ rest => rest
  | macros _ rest => rest
  | fence _ _ rest => rest

def taken : Opening → List Char
  | prose run _ => run
  | macros tokens _ => source tokens
  | fence _ opener _ => opener

def unknown (raw rest : List Char) : Opening := macros [.unknown (String.ofList raw)] rest

end Opening

def isOrdinary (c : Char) : Bool := c != '\\' && c != '$' && c != '['

/-- One citation for each key. The first owns the opener, each later one the comma before it, the
last one the closer. -/
def citationRow (lead closer part : List Char) : List (List Char) → List Token
  | [] => [.citation (String.ofList (Text.trim part)) (String.ofList (lead ++ (part ++ closer)))]
  | next :: more =>
    .citation (String.ofList (Text.trim part)) (String.ofList (lead ++ part)) ::
      citationRow [','] closer next more

def citations (opener argument closer rest : List Char) : Opening :=
  let (part, more) := commaParts argument
  if (part :: more).all fun p => isIdentifier (Text.trim p) then
    .macros (citationRow opener closer part more) rest
  else .unknown (opener ++ (argument ++ closer)) rest

def reference (opener argument closer rest : List Char) : Opening :=
  if isIdentifier (Text.trim argument) then
    .macros [.reference (String.ofList (Text.trim argument))
      (String.ofList (opener ++ (argument ++ closer)))] rest
  else .unknown (opener ++ (argument ++ closer)) rest

def isCiteCommand (name : List Char) : Bool :=
  name == "cite".toList || name == "citep".toList || name == "citet".toList

def isRefCommand (name : List Char) : Bool :=
  name == "ref".toList || name == "eqref".toList || name == "autoref".toList

def command (name argument rest : List Char) : Opening :=
  let opener := '\\' :: (name ++ ['{'])
  if name = "begin".toList then
    match Environment.named? argument with
    | some e => .fence (.environment e) (opener ++ (argument ++ ['}'])) rest
    | none => .unknown (opener ++ (argument ++ ['}'])) rest
  else if isCiteCommand name then citations opener argument ['}'] rest
  else if isRefCommand name then reference opener argument ['}'] rest
  else .unknown (opener ++ (argument ++ ['}'])) rest

def named (s : List Char) : Opening :=
  let name := s.takeWhile isLetter
  match s.dropWhile isLetter with
  | '{' :: group =>
    match braced argumentLimit 0 group with
    | some (argument, rest) => command name argument rest
    | none => .unknown ('\\' :: name) ('{' :: group)
  | rest => .unknown ('\\' :: name) rest

def backslash : List Char → Opening
  | [] => .unknown ['\\'] []
  | c :: s =>
    if c = '$' then .prose ['\\', '$'] s
    else if c = '(' then .fence .paren ['\\', '('] s
    else if c = '[' then .fence .bracket ['\\', '['] s
    else if isLetter c then named (c :: s)
    else .unknown ['\\', c] s

def dollar : List Char → Opening
  | '$' :: s => .fence .dollars ['$', '$'] s
  | s =>
    match untilDollar s with
    | some (tex, rest) =>
      if Text.allBlank tex then .unknown ('$' :: (tex ++ ['$'])) rest
      else .macros [.math (String.ofList tex) true (String.ofList ('$' :: (tex ++ ['$'])))] rest
    | none => .unknown ['$'] s

def bracketMacro (name s : List Char) : Opening :=
  let opener := '[' :: (name ++ [':'])
  match bracketed argumentLimit s with
  | none => .unknown opener s
  | some (argument, rest) =>
    if name = "cite".toList then citations opener argument [']'] rest
    else if name = "ref".toList then reference opener argument [']'] rest
    else .unknown (opener ++ (argument ++ [']'])) rest

def atCitation (s : List Char) : Opening :=
  match bracketed argumentLimit s with
  | none => .unknown ['[', '@'] s
  | some (argument, rest) =>
    if isIdentifier (Text.trim argument) then
      .macros [.citation (String.ofList (Text.trim argument))
        (String.ofList ('[' :: '@' :: (argument ++ [']'])))] rest
    else .unknown ('[' :: '@' :: (argument ++ [']'])) rest

def bracket (s : List Char) : Opening :=
  match s with
  | '@' :: r => atCitation r
  | _ =>
    let name := s.takeWhile isLetter
    match s.dropWhile isLetter with
    | ':' :: r =>
      if name ≠ [] ∧ name.length ≤ argumentLimit then bracketMacro name r else .prose ['['] s
    | _ => .prose ['['] s

def opening (c : Char) (s : List Char) : Opening :=
  if c = '\\' then backslash s
  else if c = '$' then dollar s
  else if c = '[' then bracket s
  else .prose (c :: s.takeWhile isOrdinary) (s.dropWhile isOrdinary)

/-! Nothing is lost. -/

/-- The opening takes `c` and covers `c :: s`. -/
def Opening.Covers (o : Opening) (c : Char) (s : List Char) : Prop :=
  ∃ t, o.taken = c :: t ∧ t ++ o.rest = s

theorem Opening.covers_unknown {c : Char} {t rest s : List Char} (h : t ++ rest = s) :
    (Opening.unknown (c :: t) rest).Covers c s :=
  ⟨t, by simp [unknown, taken, Token.raw], h⟩

theorem commaParts_eq (s : List Char) :
    (commaParts s).1 ++ (commaParts s).2.flatMap (',' :: ·) = s := by
  induction s with
  | nil => rfl
  | cons c s ih =>
    simp only [commaParts]
    split
    · rename_i h
      subst h
      simpa using ih
    · simpa using ih

theorem source_citationRow (lead closer part : List Char) (more : List (List Char)) :
    source (citationRow lead closer part more) =
      lead ++ (part ++ (more.flatMap (',' :: ·) ++ closer)) := by
  induction more generalizing lead part with
  | nil => simp [citationRow, Token.raw]
  | cons next more ih => simp [citationRow, Token.raw, ih]

theorem covers_citations {c : Char} {lead argument closer rest s : List Char}
    (h : lead ++ (argument ++ (closer ++ rest)) = s) :
    (citations (c :: lead) argument closer rest).Covers c s := by
  have hp := commaParts_eq argument
  simp only [citations]
  split
  · refine ⟨lead ++ (argument ++ closer), ?_, by simpa [Opening.rest] using h⟩
    rw [Opening.taken, source_citationRow, ← List.append_assoc (commaParts argument).1, hp]
    rfl
  · exact Opening.covers_unknown (by simpa using h)

theorem covers_reference {c : Char} {lead argument closer rest s : List Char}
    (h : lead ++ (argument ++ (closer ++ rest)) = s) :
    (reference (c :: lead) argument closer rest).Covers c s := by
  unfold reference
  split
  · exact ⟨lead ++ (argument ++ closer), by simp [Opening.taken, Token.raw],
      by simpa [Opening.rest] using h⟩
  · exact Opening.covers_unknown (by simpa using h)

theorem covers_command (name argument rest : List Char) :
    (command name argument rest).Covers '\\' (name ++ '{' :: (argument ++ '}' :: rest)) := by
  have hu : (Opening.unknown ('\\' :: (name ++ ['{']) ++ (argument ++ ['}'])) rest).Covers '\\'
      (name ++ '{' :: (argument ++ '}' :: rest)) := Opening.covers_unknown (by simp)
  unfold command
  split
  · split
    · exact ⟨_, rfl, by simp [Opening.rest]⟩
    · exact hu
  · split
    · exact covers_citations (by simp)
    · split
      · exact covers_reference (by simp)
      · exact hu

theorem covers_named (s : List Char) : (named s).Covers '\\' s := by
  have hs : s.takeWhile isLetter ++ s.dropWhile isLetter = s := List.takeWhile_append_dropWhile
  simp only [named]
  split
  · rename_i group he
    rw [he] at hs
    split
    · rename_i argument rest hb
      have hc := covers_command (s.takeWhile isLetter) argument rest
      rwa [← eq_of_braced hb, hs] at hc
    · exact Opening.covers_unknown hs
  · exact Opening.covers_unknown hs

theorem covers_backslash (s : List Char) : (backslash s).Covers '\\' s := by
  cases s with
  | nil => exact Opening.covers_unknown rfl
  | cons c s =>
    simp only [backslash]
    split
    · rename_i h
      exact ⟨['$'], rfl, by simp [Opening.rest, h]⟩
    · split
      · rename_i h
        exact ⟨['('], rfl, by simp [Opening.rest, h]⟩
      · split
        · rename_i h
          exact ⟨['['], rfl, by simp [Opening.rest, h]⟩
        · split
          · exact covers_named _
          · exact Opening.covers_unknown rfl

theorem covers_dollar (s : List Char) : (dollar s).Covers '$' s := by
  unfold dollar
  split
  · exact ⟨['$'], rfl, rfl⟩
  · split
    · rename_i tex rest h
      have hs := eq_of_untilDollar h
      split
      · exact Opening.covers_unknown (by simp [hs])
      · exact ⟨tex ++ ['$'], by simp [Opening.taken, Token.raw], by simp [Opening.rest, hs]⟩
    · exact Opening.covers_unknown rfl

theorem covers_bracketMacro (name s : List Char) :
    (bracketMacro name s).Covers '[' (name ++ ':' :: s) := by
  simp only [bracketMacro]
  split
  · exact Opening.covers_unknown (by simp)
  · rename_i argument rest h
    have hs := eq_of_bracketed h
    split
    · exact covers_citations (by simp [hs])
    · split
      · exact covers_reference (by simp [hs])
      · exact Opening.covers_unknown (by simp [hs])

theorem covers_atCitation (s : List Char) : (atCitation s).Covers '[' ('@' :: s) := by
  unfold atCitation
  split
  · exact Opening.covers_unknown rfl
  · rename_i argument rest h
    have hs := eq_of_bracketed h
    split
    · exact ⟨'@' :: (argument ++ [']']), by simp [Opening.taken, Token.raw],
        by simp [Opening.rest, hs]⟩
    · exact Opening.covers_unknown (by simp [hs])

theorem covers_bracket (s : List Char) : (bracket s).Covers '[' s := by
  have hs : s.takeWhile isLetter ++ s.dropWhile isLetter = s := List.takeWhile_append_dropWhile
  unfold bracket
  split
  · exact covers_atCitation _
  · simp only
    split
    · rename_i r he
      split
      · have hc := covers_bracketMacro (s.takeWhile isLetter) r
        rwa [← he, hs] at hc
      · exact ⟨[], rfl, rfl⟩
    · exact ⟨[], rfl, rfl⟩

theorem covers_opening (c : Char) (s : List Char) : (opening c s).Covers c s := by
  unfold opening
  split
  · rename_i h
    exact h ▸ covers_backslash s
  · split
    · rename_i h
      exact h ▸ covers_dollar s
    · split
      · rename_i h
        exact h ▸ covers_bracket s
      · exact ⟨s.takeWhile isOrdinary, rfl, List.takeWhile_append_dropWhile⟩

theorem length_rest_opening (c : Char) (s : List Char) :
    (opening c s).rest.length ≤ s.length := by
  obtain ⟨t, _, ht⟩ := covers_opening c s
  have hl := congrArg List.length ht
  rw [List.length_append] at hl
  omega

end Manuscript.Markup
