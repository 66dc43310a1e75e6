import Mathlib.Data.Nat.Init
import PageCalc.Formula.Parser

/-!
# The grammar of formulas

The grammar has one level for each precedence of the operators between two operands, then the signs
before an operand, and then what needs no operator. The parser accepts exactly what the grammar
derives, as long as there is room for it: how much room a derivation needs can be read off it.
-/

namespace PageCalc

/-- The tokens that are expressions by themselves. -/
inductive Atom : Token → Expr → Prop where
  | number (value : Float) : Atom (.number value) (.number value)
  | text (value : String) : Atom (.text value) (.text value)
  | boolean (value : Bool) : Atom (.boolean value) (.boolean value)
  | cell (a : Address) : Atom (.cell a) (.reference (.cell a))
  | range (r : Range) : Atom (.range r) (.reference (.range r))
  | external (e : ExternalReference) : Atom (.external e) (.reference (.external e))

mutual

/-- A derivation of an expression in which no operator outside parentheses has a precedence less
than `level`. Operators of equal precedence group from the left. -/
inductive Phrase : (level : Nat) → List Token → Expr → Type where
  | tighter {level : Nat} {tokens : List Token} {e : Expr} (weak : level < negationPrecedence)
      (phrase : Phrase (level + 1) tokens e) : Phrase level tokens e
  | binary {level : Nat} {leftTokens rightTokens : List Token} {left right : Expr}
      (operator : Operator) (precedence : operator.precedence = level)
      (leftPhrase : Phrase level leftTokens left) (rightPhrase : Phrase (level + 1) rightTokens right) :
      Phrase level (leftTokens ++ .operator operator :: rightTokens) (.binary operator left right)
  | signed {level : Nat} {tokens : List Token} {e : Expr} (strong : negationPrecedence ≤ level)
      (phrase : SignedPhrase tokens e) : Phrase level tokens e

/-- A derivation of an operand with its signs. -/
inductive SignedPhrase : List Token → Expr → Type where
  | plus {tokens : List Token} {e : Expr} (phrase : SignedPhrase tokens e) :
      SignedPhrase (.operator .add :: tokens) e
  | minus {tokens : List Token} {e : Expr} (phrase : SignedPhrase tokens e) :
      SignedPhrase (.operator .subtract :: tokens) (.negate e)
  | primary {tokens : List Token} {e : Expr} (phrase : PrimaryPhrase tokens e) :
      SignedPhrase tokens e

/-- A derivation of an operand without signs. -/
inductive PrimaryPhrase : List Token → Expr → Type where
  | atom {token : Token} {e : Expr} (atom : Atom token e) : PrimaryPhrase [token] e
  | enclosed {tokens : List Token} {e : Expr} (phrase : Phrase 1 tokens e) :
      PrimaryPhrase (.leftParen :: tokens ++ [.rightParen]) e
  | bareCall (name : String) :
      PrimaryPhrase [.name name, .leftParen, .rightParen] (.call (Text.upper name) [])
  | call {tokens : List Token} {arguments : List Expr} (name : String)
      (phrases : ArgumentPhrases tokens arguments) :
      PrimaryPhrase (.name name :: .leftParen :: tokens ++ [.rightParen])
        (.call (Text.upper name) arguments)

/-- A derivation of arguments with commas between them. -/
inductive ArgumentPhrases : List Token → List Expr → Type where
  | last {tokens : List Token} {e : Expr} (phrase : Phrase 1 tokens e) : ArgumentPhrases tokens [e]
  | more {firstTokens tokens : List Token} {e : Expr} {es : List Expr}
      (first : Phrase 1 firstTokens e) (others : ArgumentPhrases tokens es) :
      ArgumentPhrases (firstTokens ++ .comma :: tokens) (e :: es)

end

/-- The grammar derives the expression from the tokens. -/
def Derives (tokens : List Token) (e : Expr) : Prop := Nonempty (Phrase 1 tokens e)

/-! ## The room of a derivation -/

/-- How many operators the outermost chain of a phrase has. -/
def Phrase.spent {level : Nat} {tokens : List Token} {e : Expr} : Phrase level tokens e → Nat
  | .tighter _ _ | .signed _ _ => 0
  | .binary _ _ left _ => left.spent + 1

mutual

/-- The room that the parser needs for a phrase. -/
def Phrase.need {level : Nat} {tokens : List Token} {e : Expr} : Phrase level tokens e → Nat
  | .tighter _ phrase => phrase.need
  -- The operators of a chain before an operand take up room while it is parsed.
  | .binary _ _ left right => max left.need (left.spent + 1 + right.need)
  | .signed _ phrase => phrase.need

def SignedPhrase.need {tokens : List Token} {e : Expr} : SignedPhrase tokens e → Nat
  | .plus phrase => phrase.need
  | .minus phrase => phrase.need + 1
  | .primary phrase => phrase.need

def PrimaryPhrase.need {tokens : List Token} {e : Expr} : PrimaryPhrase tokens e → Nat
  | .atom _ | .bareCall _ => 0
  | .enclosed phrase => phrase.need + 1
  | .call _ phrases => phrases.need

def ArgumentPhrases.need {tokens : List Token} {es : List Expr} : ArgumentPhrases tokens es → Nat
  | .last phrase => phrase.need + 1
  | .more first others => max (first.need + 1) others.need

end

theorem Phrase.spent_le {level : Nat} {tokens : List Token} {e : Expr} (phrase : Phrase level tokens e) :
    phrase.spent ≤ phrase.need := by
  cases phrase with
  | tighter | signed => exact Nat.zero_le _
  | binary operator precedence left right =>
    rw [Phrase.spent, Phrase.need]
    omega

/-! ## Weaker levels -/

/-- What binds strongly may stand where weaker operators may; it is then no chain of the weaker level. -/
theorem Phrase.exists_weaker {level strong : Nat} {tokens : List Token} {e : Expr}
    (phrase : Phrase strong tokens e) (weaker : level ≤ strong) (binds : strong ≤ negationPrecedence) :
    ∃ whole : Phrase level tokens e, whole.need = phrase.need ∧
      whole.spent = if level = strong then phrase.spent else 0 := by
  induction weaker using Nat.decreasingInduction with
  | self => exact ⟨phrase, rfl, (if_pos rfl).symm⟩
  | of_succ level weaker ih =>
    obtain ⟨inner, need, -⟩ := ih
    refine ⟨.tighter (by omega) inner, by rw [Phrase.need, need], ?_⟩
    rw [Phrase.spent, if_neg (by omega)]

theorem SignedPhrase.exists_phrase {level : Nat} {tokens : List Token} {e : Expr}
    (phrase : SignedPhrase tokens e) (weaker : level ≤ negationPrecedence) :
    ∃ whole : Phrase level tokens e, whole.need = phrase.need ∧ whole.spent = 0 := by
  obtain ⟨whole, need, spent⟩ :=
    (Phrase.signed (Nat.le_refl _) phrase).exists_weaker weaker (Nat.le_refl _)
  refine ⟨whole, by rw [need, Phrase.need], ?_⟩
  rw [spent, Phrase.spent, ite_self]

theorem Atom.exists_phrase {level : Nat} {token : Token} {e : Expr} (atom : Atom token e)
    (weaker : level ≤ negationPrecedence) :
    ∃ phrase : Phrase level [token] e, phrase.need = 0 ∧ phrase.spent = 0 := by
  obtain ⟨phrase, need, spent⟩ := (SignedPhrase.primary (.atom atom)).exists_phrase weaker
  exact ⟨phrase, by rw [need, SignedPhrase.need, PrimaryPhrase.need], spent⟩

/-! ## First tokens -/

/-- An operand without signs begins neither with an operator nor with a closing parenthesis. -/
theorem PrimaryPhrase.head {tokens : List Token} {e : Expr} (phrase : PrimaryPhrase tokens e) :
    ∃ token rest, tokens = token :: rest ∧ (∀ operator, token ≠ .operator operator) ∧
      token ≠ .rightParen := by
  cases phrase with
  | atom atom => cases atom <;> exact ⟨_, _, rfl, by simp⟩
  | enclosed | bareCall | call => exact ⟨_, _, rfl, by simp⟩

theorem SignedPhrase.head {tokens : List Token} {e : Expr} (phrase : SignedPhrase tokens e) :
    ∃ token rest, tokens = token :: rest ∧ token ≠ .rightParen := by
  cases phrase with
  | plus | minus => exact ⟨_, _, rfl, by simp⟩
  | primary phrase =>
    obtain ⟨token, rest, same, -, notClosing⟩ := phrase.head
    exact ⟨token, rest, same, notClosing⟩

theorem Phrase.head {level : Nat} {tokens : List Token} {e : Expr} (phrase : Phrase level tokens e) :
    ∃ token rest, tokens = token :: rest ∧ token ≠ .rightParen := by
  match phrase with
  | .tighter _ phrase => exact phrase.head
  | .binary _ _ left _ =>
    obtain ⟨token, rest, rfl, notClosing⟩ := left.head
    exact ⟨token, _, rfl, notClosing⟩
  | .signed _ phrase => exact phrase.head

theorem ArgumentPhrases.head {tokens : List Token} {es : List Expr}
    (phrases : ArgumentPhrases tokens es) :
    ∃ token rest, tokens = token :: rest ∧ token ≠ .rightParen := by
  cases phrases with
  | last phrase => exact phrase.head
  | more first others =>
    obtain ⟨token, rest, rfl, notClosing⟩ := first.head
    exact ⟨token, _, rfl, notClosing⟩

end PageCalc
