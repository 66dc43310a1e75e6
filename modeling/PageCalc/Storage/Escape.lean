/-!
# Escapes

A stored cell takes one line, so a text with line breaks in it is written without them: a
backslash begins an escape, which stands for a line feed, a carriage return or a backslash.
Decoding undoes encoding, and an encoded text has no line breaks.
-/

namespace PageCalc

/-- Why a text is not decoded. -/
inductive EscapeError where
  /-- A backslash before a character that begins no escape. -/
  | unknown (c : Char)
  | dangling
deriving DecidableEq

def EscapeError.message : EscapeError → String
  | unknown c => s!"unknown escape '\\{c}'"
  | dangling => "dangling '\\' at end of line"

namespace Escape

/-- What follows the backslash in the escape for a character; most characters have none. -/
def letter? : Char → Option Char
  | '\\' => some '\\'
  | '\n' => some 'n'
  | '\r' => some 'r'
  | _ => none

/-- The character whose escape has the given letter. -/
def meaning? : Char → Option Char
  | '\\' => some '\\'
  | 'n' => some '\n'
  | 'r' => some '\r'
  | _ => none

def encodeChar (c : Char) : List Char :=
  match letter? c with
  | some letter => ['\\', letter]
  | none => [c]

def encode (cs : List Char) : List Char := cs.flatMap encodeChar

/-- The text that was written. The first fault counts. -/
def decode : List Char → Except EscapeError (List Char)
  | [] => .ok []
  | ['\\'] => .error .dangling
  | '\\' :: letter :: rest =>
    match meaning? letter with
    | some c => (decode rest).map (c :: ·)
    | none => .error (.unknown letter)
  | c :: rest => (decode rest).map (c :: ·)

/-! ## Decoding undoes encoding -/

@[simp]
theorem encode_nil : encode [] = [] := rfl

@[simp]
theorem encode_cons (c : Char) (cs : List Char) :
    encode (c :: cs) = encodeChar c ++ encode cs := rfl

theorem meaning?_of_letter? {c letter : Char} (h : letter? c = some letter) :
    meaning? letter = some c := by
  unfold letter? at h
  split at h <;> cases h <;> rfl

theorem ne_of_letter?_eq_none {c : Char} (h : letter? c = none) : c ≠ '\\' := by
  intro same
  subst same
  simp [letter?] at h

theorem decode_escape {letter c : Char} (h : meaning? letter = some c) (rest : List Char) :
    decode ('\\' :: letter :: rest) = (decode rest).map (c :: ·) := by
  simp [decode, h]

theorem decode_cons {c : Char} (h : c ≠ '\\') (rest : List Char) :
    decode (c :: rest) = (decode rest).map (c :: ·) := by
  simp [decode, h]

theorem decode_encode (cs : List Char) : decode (encode cs) = .ok cs := by
  induction cs with
  | nil => rfl
  | cons c cs ih =>
    rw [encode_cons, encodeChar]
    split
    · next letter h =>
      rw [List.cons_append, List.cons_append, List.nil_append,
        decode_escape (meaning?_of_letter? h), ih]
      rfl
    · next h =>
      rw [List.cons_append, List.nil_append, decode_cons (ne_of_letter?_eq_none h), ih]
      rfl

/-- An encoded text has no line feeds and no carriage returns. -/
theorem not_mem_encode {c : Char} (h : c = '\n' ∨ c = '\r') (cs : List Char) :
    c ∉ encode cs := by
  induction cs with
  | nil => simp
  | cons d cs ih =>
    rw [encode_cons, List.mem_append, not_or]
    refine ⟨?_, ih⟩
    unfold encodeChar letter?
    split
    · next found =>
      split at found <;> cases found <;> rcases h with rfl | rfl <;> decide
    · next found =>
      split at found
      · cases found
      · cases found
      · cases found
      · rcases h with rfl | rfl <;> simp_all [eq_comm]

end Escape
end PageCalc
