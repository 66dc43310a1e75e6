import PageCalc.Formula.Lexer

/-!
# The cursor of the lexer

The tokens of a text are found by a cursor: the number of bytes before what is read next. Characters are
looked at where the cursor stands, and each one that is taken up moves it on by the bytes of that character.
Nothing can be looked at in the middle of a character.
-/

namespace PageCalc

namespace Token

theorem foldl_utf8Size (cs : List Char) (sum : Nat) :
    cs.foldl (fun sum c => sum + c.utf8Size) sum = sum + byteLength cs := by
  unfold byteLength
  induction cs generalizing sum with
  | nil => rfl
  | cons c cs ih => rw [List.foldl_cons, List.foldl_cons, ih, ih (0 + c.utf8Size), Nat.zero_add, Nat.add_assoc]

theorem byteLength_append (cs more : List Char) : byteLength (cs ++ more) = byteLength cs + byteLength more := by
  rw [byteLength, List.foldl_append, foldl_utf8Size]
  rfl

theorem byteLength_cons (c : Char) (cs : List Char) : byteLength (c :: cs) = c.utf8Size + byteLength cs := by
  rw [byteLength, List.foldl_cons, foldl_utf8Size, Nat.zero_add]

/-- A text cut in two at a byte, unless the byte is inside a character or beyond the text. -/
def cutAtByte? : List Char → Nat → Option (List Char × List Char)
  | [], pos => if pos = 0 then some ([], []) else none
  | c :: cs, pos =>
    if pos = 0 then some ([], c :: cs)
    else if c.utf8Size ≤ pos then
      (cutAtByte? cs (pos - c.utf8Size)).map fun (before, after) => (c :: before, after)
    else none

theorem cutAtByte?_append (before after : List Char) :
    cutAtByte? (before ++ after) (byteLength before) = some (before, after) := by
  induction before with
  | nil => cases after <;> rfl
  | cons c before ih =>
    have positive := c.utf8Size_pos
    rw [List.cons_append, cutAtByte?, byteLength_cons, if_neg (by omega), if_pos (by omega),
      Nat.add_sub_cancel_left, ih]
    rfl

theorem cutAtByte?_eq_some {cs before after : List Char} {pos : Nat}
    (cut : cutAtByte? cs pos = some (before, after)) : cs = before ++ after ∧ pos = byteLength before := by
  induction cs generalizing pos before with
  | nil =>
    rw [cutAtByte?] at cut
    split at cut <;> cases cut
    next isStart => exact ⟨rfl, isStart⟩
  | cons c cs ih =>
    rw [cutAtByte?] at cut
    split at cut
    · next isStart =>
      cases cut
      exact ⟨rfl, isStart⟩
    split at cut
    · next fits =>
      obtain ⟨⟨inner, left⟩, cutLater, same⟩ := Option.map_eq_some_iff.1 cut
      cases same
      obtain ⟨rfl, isLength⟩ := ih cutLater
      exact ⟨rfl, by rw [byteLength_cons, ← isLength, Nat.add_sub_cancel' fits]⟩
    · cases cut

end Token

open Token (byteLength cutAtByte? isWordChar isCellShaped addressOfWord)

/-- What is done to a text with a cursor. It gives something and may move the cursor, or it refuses the text.
It has no outcome at all if it looks at what is in the middle of a character. -/
abbrev Lexer := ReaderT (List Char) (StateT Nat (ExceptT FormulaError Option))

namespace Lexer

/-- What comes after the cursor. -/
def rest : Lexer (List Char) := fun text pos => ExceptT.mk <|
  (cutAtByte? text pos).map fun (_, rest) => .ok (rest, pos)

/-- What comes between a byte and the cursor. -/
def since (start : Nat) : Lexer (List Char) := fun text pos => ExceptT.mk do
  let (_, rest) ← cutAtByte? text start
  let (span, _) ← cutAtByte? rest (pos - start)
  return .ok (span, pos)

def peek : Lexer (Option Char) := List.head? <$> rest

def peekAt (offset : Nat) : Lexer (Option Char) := (·[offset]?) <$> rest

def advance : Lexer Unit := do
  if let some c ← peek then modify (· + c.utf8Size)

theorem lt_byteLength {text before after : List Char} {pos : Nat} {c : Char}
    (cut : cutAtByte? text pos = some (before, c :: after)) : pos < byteLength text := by
  obtain ⟨rfl, rfl⟩ := Token.cutAtByte?_eq_some cut
  rw [Token.byteLength_append, Token.byteLength_cons]
  have positive := c.utf8Size_pos
  omega

/-- Takes up characters of a kind. -/
def skipWhile (p : Char → Bool) : Lexer Unit := fun text pos =>
  match _cut : cutAtByte? text pos with
  | none => ExceptT.mk none
  | some (_, []) => pure ((), pos)
  | some (_, c :: _) => if p c then skipWhile p text (pos + c.utf8Size) else pure ((), pos)
termination_by text pos => byteLength text - pos
decreasing_by
  have inside := lt_byteLength _cut
  have positive := c.utf8Size_pos
  omega

/-! ## Literals -/

/-- Takes up a text that was begun at `start`, as far as its closing quote. -/
def closeText (start : Nat) (inner : String) : Lexer Token := fun text pos =>
  match _cut : cutAtByte? text pos with
  | none => ExceptT.mk none
  | some (_, []) => throw (.parse s!"Unterminated string starting at position {start}")
  | some (_, c :: after) =>
    if c = '"' then
      if after.head? = some '"' then
        closeText start (inner.push '"') text (pos + c.utf8Size + '"'.utf8Size)
      else pure (.text inner, pos + c.utf8Size)
    else closeText start (inner.push c) text (pos + c.utf8Size)
termination_by text pos => byteLength text - pos
decreasing_by
  all_goals
    have inside := lt_byteLength _cut
    have positive := c.utf8Size_pos
    omega

def scanText : Lexer Token := do
  let start ← get
  advance
  closeText start ""

def skipFraction : Lexer Unit := do
  if (← peek) = some '.' then
    advance
    skipWhile Char.isDigit

def skipSign : Lexer Unit := do
  if (← peek).any fun c => c = '+' || c = '-' then advance

def skipExponent : Lexer Unit := do
  if (← peek).any fun c => c = 'e' || c = 'E' then
    advance
    skipSign
    skipWhile Char.isDigit

def scanNumber : Lexer Token := do
  let start ← get
  skipWhile Char.isDigit
  skipFraction
  skipExponent
  let shown ← since start
  match (Number.ofDecimalText? shown).filter Float.isFinite with
  | some value => return .number value
  | none => throw (.parse s!"Invalid number '{String.ofList shown}'")

/-! ## Words -/

def scanWord : Lexer (List Char) := do
  let start ← get
  skipWhile isWordChar
  since start

/-- Takes up what follows the address `first`, written `shown`: with a colon and another address it is a range. -/
def scanRange (first : Address) (shown : String) : Lexer Token := do
  if (← peek) = some ':' then
    advance
    let word ← scanWord
    if isCellShaped word then
      let last ← MonadExcept.ofExcept (addressOfWord word)
      return .range (.spanning first last)
    else throw (.parse s!"Expected cell reference after '{shown}:'")
  else return .cell first

def scanNameOrAddress : Lexer Token := do
  let word ← scanWord
  let shown := String.ofList word
  if (← peek) = some '(' then return .name shown
  else if Text.upperAscii shown = "TRUE" then return .boolean true
  else if Text.upperAscii shown = "FALSE" then return .boolean false
  else if isCellShaped word then
    let first ← MonadExcept.ofExcept (addressOfWord word)
    scanRange first shown
  else return .name shown

/-! ## References to other pages -/

/-- Takes up a text as far as a mark, and the mark. -/
def scanUntil (mark : Char) : Lexer (Option (List Char)) := do
  match Text.cutAt? mark (← rest) with
  | none => return none
  | some (before, _) =>
    modify (· + byteLength before + mark.utf8Size)
    return some before

def scanTarget (page : PageRef) : Lexer Token := do
  if (← peek) = some ':' then
    advance
    match ← scanNameOrAddress with
    | .cell a => return .external ⟨page, .cell a⟩
    | .range r => return .external ⟨page, .range r⟩
    | _ => throw (.parse s!"Expected cell or range after '{page.text}:'")
  else return .external ⟨page, .wholeSheet⟩

def scanIdentifier (label : String) : Lexer Token := do
  if (← peek) = some '(' then
    advance
    match ← scanUntil ')' with
    | none => throw (.parse s!"Unterminated page id after label '{label}'")
    | some identifier =>
      if (Text.trim identifier).isEmpty then throw (.parse s!"Empty page id in reference to '{label}'")
      else scanTarget ⟨String.ofList identifier, label⟩
  else throw (.parse s!"Expected '(' after page label '{label}'")

def scanPage : Lexer Token := do
  let start ← get
  advance
  if (← peek) = some '[' then
    advance
    match ← scanUntil ']' with
    | none => throw (.parse s!"Unterminated page label starting at position {start}")
    | some label => scanIdentifier (String.ofList label)
  else throw (.parse s!"Expected '[' after '@' at position {start}")

/-! ## Tokens -/

def scanLess : Lexer Token := do
  advance
  match ← peek with
  | some '=' => advance; return .operator .lessEqual
  | some '>' => advance; return .operator .notEqual
  | _ => return .operator .less

def scanGreater : Lexer Token := do
  advance
  match ← peek with
  | some '=' => advance; return .operator .greaterEqual
  | _ => return .operator .greater

/-- Takes up the token that begins with `c`. -/
def scanFrom (c : Char) : Lexer Token := do
  if let some token := Token.single? c then
    advance
    return token
  else if c = '<' then scanLess
  else if c = '>' then scanGreater
  else if c = '"' then scanText
  else if c = '@' then scanPage
  else if c.isDigit || (c = '.' && (← peekAt 1).any Char.isDigit) then scanNumber
  else if Token.startsWord c then scanNameOrAddress
  else throw (.parse s!"Unexpected character '{c}' at position {← get}")

/-- Takes up the blanks that come first, and then a token. The end of the text is no token. -/
def scanToken : Lexer (Option Token) := do
  skipWhile Text.isBlank
  match ← peek with
  | none => return none
  | some c => some <$> scanFrom c

/-- Takes up tokens as long as there are any, but no more than so many, and then gives a mark for the end of
the text. -/
def tokenize : (rounds : Nat) → Lexer (List (Option Token))
  | 0 => fun _ _ => ExceptT.mk none
  | rounds + 1 => do
    match ← scanToken with
    | none => return [none]
    | some token => return some token :: (← tokenize rounds)

end Lexer
end PageCalc
