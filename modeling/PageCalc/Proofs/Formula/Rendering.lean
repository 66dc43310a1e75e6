import PageCalc.Proofs.Formula.Spelling

/-!
# Printed formulas are parsed again

The text of an expression is the spelling of a phrase for it, so the parser reads the expression from it
if there is room for the phrase. How much room that is can be read off the expression. Parentheses
that the text does not need are not printed: a chain that stood in them becomes part of the chain after
them, and takes up room there.
-/

namespace PageCalc

open Token (spell spell_append spell_cons)

theorem Operator.precedence_pos (operator : Operator) : 1 ≤ operator.precedence := by
  cases operator <;> decide

namespace Expr

/-! ## Room -/

/-- How many operators of precedence `level` the outermost chain of the printed expression has. -/
def chainLength (level : Nat) : Expr → Nat
  | binary operator left _ => if operator.precedence = level then left.chainLength level + 1 else 0
  | _ => 0

mutual

/-- The room that the parser needs for the expression printed at `level`. -/
def nestingAt (level : Nat) : Expr → Nat
  | number _ | text _ | boolean _ | reference _ => 0
  | binary operator left right =>
    let strength := operator.precedence
    max (left.nestingAt strength) (left.chainLength strength + 1 + right.nestingAt (strength + 1)) +
      if strength < level then 1 else 0
  | negate operand => operand.nestingAt negationPrecedence + 1
  | call _ arguments => argumentNesting arguments

def argumentNesting : List Expr → Nat
  | [] => 0
  | e :: es => max (e.nestingAt 1 + 1) (argumentNesting es)

end

/-- The room that the parser needs for the formula of the expression. -/
def nesting (e : Expr) : Nat := e.nestingAt 1 + 1

/-! ## Phrases of printed expressions -/

/-- A phrase that spells what is printed. -/
structure Rendering (level : Nat) (e : Expr) where
  tokens : List Token
  phrase : Phrase level tokens e
  spelled : e.chars level = spell tokens
  printable : ∀ token ∈ tokens, token.Printable
  need : phrase.need = e.nestingAt level
  spent : phrase.spent = e.chainLength level

/-- Phrases that spell printed arguments. -/
structure ArgumentRendering (es : List Expr) where
  tokens : List Token
  phrases : ArgumentPhrases tokens es
  spelled : argumentChars es = spell tokens
  printable : ∀ token ∈ tokens, token.Printable
  need : phrases.need = argumentNesting es

variable {level : Nat} {tokens : List Token} {e left right : Expr} {es : List Expr}

theorem exists_rendering_of_signed (phrase : SignedPhrase tokens e) (weaker : level ≤ negationPrecedence)
    (spelled : e.chars level = spell tokens) (printable : ∀ token ∈ tokens, token.Printable)
    (need : phrase.need = e.nestingAt level) (spent : e.chainLength level = 0) :
    Nonempty (Rendering level e) := by
  obtain ⟨whole, wholeNeed, wholeSpent⟩ := phrase.exists_phrase weaker
  exact ⟨⟨tokens, whole, spelled, printable, wholeNeed.trans need, wholeSpent.trans spent.symm⟩⟩

theorem exists_rendering_of_atom {token : Token} (atom : Atom token e) (printable : e.Printable)
    (weaker : level ≤ negationPrecedence) : Nonempty (Rendering level e) := by
  have spelled : e.chars level = spell [token] := by
    rw [spell, List.flatMap_singleton]
    cases atom <;> simp only [chars] <;> rfl
  have tokenPrintable : ∀ other ∈ [token], other.Printable :=
    List.forall_mem_singleton.2 (by cases atom <;> exact printable)
  refine exists_rendering_of_signed (.primary (.atom atom)) weaker spelled tokenPrintable ?_ ?_
  · cases atom <;> rfl
  · cases atom <;> rfl

theorem exists_rendering_binary (operator : Operator) (first : Rendering operator.precedence left)
    (second : Rendering (operator.precedence + 1) right) (weaker : level ≤ negationPrecedence) :
    Nonempty (Rendering level (.binary operator left right)) := by
  have strength := Nat.le_of_lt operator.precedence_lt
  let phrase := Phrase.binary operator rfl first.phrase second.phrase
  have need : phrase.need = max (left.nestingAt operator.precedence)
      (left.chainLength operator.precedence + 1 + right.nestingAt (operator.precedence + 1)) := by
    rw [Phrase.need, first.need, first.spent, second.need]
  have spelled : left.chars operator.precedence ++ operator.symbol.toList ++
      right.chars (operator.precedence + 1) = spell (first.tokens ++ .operator operator :: second.tokens) := by
    rw [spell_append, spell_cons, ← first.spelled, ← second.spelled, List.append_assoc]
    rfl
  have printable : ∀ token ∈ first.tokens ++ .operator operator :: second.tokens, token.Printable :=
    List.forall_mem_append.2 ⟨first.printable, List.forall_mem_cons.2 ⟨trivial, second.printable⟩⟩
  by_cases enclosed : operator.precedence < level
  · -- In parentheses the chain stands for itself.
    obtain ⟨inner, innerNeed, -⟩ := phrase.exists_weaker operator.precedence_pos strength
    refine exists_rendering_of_signed (.primary (.enclosed inner)) weaker ?_ ?_ ?_ ?_
    · simp only [chars, enclosed, decide_true, enclose, if_true, spelled, spell_append, spell_cons]
      rfl
    · exact List.forall_mem_append.2
        ⟨List.forall_mem_cons.2 ⟨trivial, printable⟩, List.forall_mem_singleton.2 trivial⟩
    · rw [SignedPhrase.need, PrimaryPhrase.need, innerNeed, need, nestingAt, if_pos enclosed]
    · rw [chainLength, if_neg (by omega)]
  · obtain ⟨whole, wholeNeed, wholeSpent⟩ := phrase.exists_weaker (Nat.not_lt.1 enclosed) strength
    refine ⟨⟨_, whole, ?_, printable, ?_, ?_⟩⟩
    · simp only [chars, enclosed, decide_false, enclose, Bool.false_eq_true, if_false, spelled]
    · simp only [wholeNeed, need, nestingAt, if_neg enclosed, Nat.add_zero]
    · rw [wholeSpent, chainLength, Phrase.spent, first.spent]
      by_cases same : level = operator.precedence
      · rw [if_pos same, if_pos same.symm, same]
      · rw [if_neg same, if_neg (Ne.symm same)]

theorem exists_rendering_negate (operand : Rendering negationPrecedence e)
    (weaker : level ≤ negationPrecedence) : Nonempty (Rendering level (.negate e)) := by
  cases operand with
  | mk tokens phrase spelled printable need spent =>
    -- What binds as strongly as a minus is an operand with its signs.
    have signed : ∃ signed : SignedPhrase tokens e, signed.need = phrase.need := by
      cases phrase with
      | tighter weak => exact absurd weak (Nat.lt_irrefl _)
      | binary operator precedence => exact absurd precedence (Nat.ne_of_lt operator.precedence_lt)
      | signed _ phrase => exact ⟨phrase, by rw [Phrase.need]⟩
    obtain ⟨signed, signedNeed⟩ := signed
    refine exists_rendering_of_signed (.minus signed) weaker ?_ ?_ ?_ rfl
    · simp only [chars, Nat.not_lt.2 weaker, decide_false, enclose, Bool.false_eq_true, if_false, spelled,
        spell_cons]
      rfl
    · exact List.forall_mem_cons.2 ⟨trivial, printable⟩
    · rw [SignedPhrase.need, signedNeed, need, nestingAt]

/-- No operator is weak enough to need parentheses at the lowest level. -/
theorem chars_zero (e : Expr) : e.chars 0 = e.chars 1 := by
  cases e with
  | binary operator left right =>
    have positive := operator.precedence_pos
    simp only [chars, Nat.not_lt_zero, Nat.not_lt.2 positive]
  | negate operand => simp [chars, negationPrecedence]
  | number | text | boolean | reference | call => simp only [chars]

theorem exists_rendering_bareCall {name : String} (isName : IsName name) (upper : Text.upper name = name)
    (weaker : level ≤ negationPrecedence) : Nonempty (Rendering level (.call name [])) := by
  have exists_phrase : ∃ phrase : SignedPhrase [.name name, .leftParen, .rightParen]
      (.call (Text.upper name) []), phrase.need = 0 := ⟨.primary (.bareCall name), rfl⟩
  rw [upper] at exists_phrase
  obtain ⟨phrase, need⟩ := exists_phrase
  refine exists_rendering_of_signed phrase weaker ?_ ?_ need rfl
  · simp only [chars, argumentChars]
    rfl
  · simpa [Token.Printable] using isName

theorem exists_rendering_call {name : String} (isName : IsName name) (upper : Text.upper name = name)
    (rendering : ArgumentRendering es) (weaker : level ≤ negationPrecedence) :
    Nonempty (Rendering level (.call name es)) := by
  have exists_phrase : ∃ phrase : SignedPhrase (.name name :: .leftParen :: rendering.tokens ++ [.rightParen])
      (.call (Text.upper name) es), phrase.need = rendering.phrases.need :=
    ⟨.primary (.call name rendering.phrases), by rw [SignedPhrase.need, PrimaryPhrase.need]⟩
  rw [upper] at exists_phrase
  obtain ⟨phrase, need⟩ := exists_phrase
  refine exists_rendering_of_signed phrase weaker ?_ ?_ ?_ rfl
  · simp only [chars, rendering.spelled, spell_append, spell_cons, List.append_assoc]
    rfl
  · have opened : ∀ token ∈ Token.name name :: .leftParen :: rendering.tokens, token.Printable :=
      List.forall_mem_cons.2 ⟨isName, List.forall_mem_cons.2 ⟨trivial, rendering.printable⟩⟩
    exact List.forall_mem_append.2 ⟨opened, List.forall_mem_singleton.2 trivial⟩
  · rw [need, rendering.need, nestingAt]

theorem exists_rendering_last (only : Rendering 1 e) : Nonempty (ArgumentRendering [e]) := by
  refine ⟨⟨only.tokens, .last only.phrase, ?_, only.printable, ?_⟩⟩
  · rw [argumentChars, chars_zero, only.spelled]
  · rw [ArgumentPhrases.need, only.need, argumentNesting, argumentNesting, Nat.max_zero]

theorem exists_rendering_more {e' : Expr} (first : Rendering 1 e) (others : ArgumentRendering (e' :: es)) :
    Nonempty (ArgumentRendering (e :: e' :: es)) := by
  have printable : ∀ token ∈ first.tokens ++ .comma :: others.tokens, token.Printable :=
    List.forall_mem_append.2 ⟨first.printable, List.forall_mem_cons.2 ⟨trivial, others.printable⟩⟩
  refine ⟨⟨_, .more first.phrase others.phrases, ?_, printable, ?_⟩⟩
  · rw [argumentChars, chars_zero, first.spelled, others.spelled, spell_append, spell_cons]
    · rfl
    · exact List.cons_ne_nil _ _
  · rw [ArgumentPhrases.need, first.need, others.need, argumentNesting.eq_2 e]

mutual

/-- Whatever can be printed is printed as the spelling of a phrase for it. -/
theorem exists_rendering (e : Expr) (printable : e.Printable) (level : Nat) (weaker : level ≤ negationPrecedence) :
    Nonempty (Rendering level e) := by
  match e with
  | .number x => exact exists_rendering_of_atom (.number x) printable weaker
  | .text t => exact exists_rendering_of_atom (.text t) printable weaker
  | .boolean b => exact exists_rendering_of_atom (.boolean b) printable weaker
  | .reference (.cell a) => exact exists_rendering_of_atom (.cell a) printable weaker
  | .reference (.range r) => exact exists_rendering_of_atom (.range r) printable weaker
  | .reference (.external r) => exact exists_rendering_of_atom (.external r) printable weaker
  | .binary operator left right =>
    obtain ⟨first⟩ := exists_rendering left printable.1 operator.precedence
      (Nat.le_of_lt operator.precedence_lt)
    obtain ⟨second⟩ := exists_rendering right printable.2 (operator.precedence + 1) operator.precedence_lt
    exact exists_rendering_binary operator first second weaker
  | .negate operand =>
    obtain ⟨rendering⟩ := exists_rendering operand printable negationPrecedence (Nat.le_refl _)
    exact exists_rendering_negate rendering weaker
  | .call name [] => exact exists_rendering_bareCall printable.1.1 printable.1.2 weaker
  | .call name (e :: es) =>
    obtain ⟨rendering⟩ := exists_argumentRendering (e :: es) printable.2 (List.cons_ne_nil _ _)
    exact exists_rendering_call printable.1.1 printable.1.2 rendering weaker

theorem exists_argumentRendering (es : List Expr) (printable : AllPrintable es) (nonempty : es ≠ []) :
    Nonempty (ArgumentRendering es) := by
  have lowest : 1 ≤ negationPrecedence := by decide
  match es with
  | [] => exact absurd rfl nonempty
  | [e] =>
    obtain ⟨only⟩ := exists_rendering e printable.1 1 lowest
    exact exists_rendering_last only
  | e :: e' :: es =>
    obtain ⟨first⟩ := exists_rendering e printable.1 1 lowest
    obtain ⟨others⟩ := exists_argumentRendering (e' :: es) printable.2 (List.cons_ne_nil _ _)
    exact exists_rendering_more first others

end

/-! ## Parsing what is printed -/

/-- What can be printed is parsed again from its formula if there is room for it. -/
theorem ofFormula_formula (printable : e.Printable) :
    ofFormula e.formula = if e.nesting ≤ maxNesting then .ok e else .error .tooNested := by
  have lowest : 1 ≤ negationPrecedence := by decide
  obtain ⟨rendering⟩ := exists_rendering e printable 1 lowest
  rw [formula, chars_zero, rendering.spelled, ofFormula_spell rendering.phrase rendering.printable,
    rendering.need, nesting]

theorem ofFormula_of_room (printable : e.Printable) (room : e.nesting ≤ maxNesting) :
    ofFormula e.formula = .ok e := (ofFormula_formula printable).trans (if_pos room)

/-! ## A chain in parentheses

A sum in parentheses takes up no room any more when the operand after it is parsed. Its parentheses are
not printed, and without them all of its operators take up room there. -/

section Sums

variable (a : Address)

/-- The sum of `n + 1` operands. -/
def sum : Nat → Expr
  | 0 => .reference (.cell a)
  | n + 1 => .binary .add (sum n) (.reference (.cell a))

def sumTokens : Nat → List Token
  | 0 => [.cell a]
  | n + 1 => sumTokens n ++ [.operator .add, .cell a]

/-- An operand after `m` minuses. -/
def opposite : Nat → Expr
  | 0 => .reference (.cell a)
  | m + 1 => .negate (opposite m)

def oppositeTokens : Nat → List Token
  | 0 => [.cell a]
  | m + 1 => .operator .subtract :: oppositeTokens m

/-- A sum in parentheses plus an operand after minuses, as in `(A1+A1)+--A1`. -/
def enclosedSumTokens (n m : Nat) : List Token :=
  (.leftParen :: sumTokens a n ++ [.rightParen]) ++ .operator .add :: oppositeTokens a m

/-- The text of these tokens after an equals sign. -/
def enclosedSum (n m : Nat) : String := String.ofList ('=' :: spell (enclosedSumTokens a n m))

theorem exists_sum_phrase (n : Nat) :
    ∃ phrase : Phrase 3 (sumTokens a n) (sum a n), phrase.need = n ∧ phrase.spent = n := by
  have weaker : 3 ≤ negationPrecedence ∧ 4 ≤ negationPrecedence := by decide
  induction n with
  | zero => exact (Atom.cell a).exists_phrase weaker.1
  | succ n ih =>
    obtain ⟨before, beforeNeed, beforeSpent⟩ := ih
    obtain ⟨last, lastNeed, -⟩ := (Atom.cell a).exists_phrase weaker.2
    have isSum : Operator.add.precedence = 3 := rfl
    rw [sumTokens, sum]
    refine ⟨.binary .add isSum before last, ?_, ?_⟩
    · rw [Phrase.need, beforeNeed, beforeSpent, lastNeed]
      omega
    · rw [Phrase.spent, beforeSpent]

theorem exists_opposite_phrase (m : Nat) :
    ∃ phrase : SignedPhrase (oppositeTokens a m) (opposite a m), phrase.need = m := by
  induction m with
  | zero => exact ⟨.primary (.atom (.cell a)), rfl⟩
  | succ m ih =>
    obtain ⟨phrase, need⟩ := ih
    rw [oppositeTokens, opposite]
    exact ⟨.minus phrase, by rw [SignedPhrase.need, need]⟩

theorem exists_enclosedSum_phrase (n m : Nat) :
    ∃ phrase : Phrase 1 (enclosedSumTokens a n m) (.binary .add (sum a n) (opposite a m)),
      phrase.need = max n m + 1 := by
  have weaker : 1 ≤ 3 ∧ 3 ≤ negationPrecedence ∧ 4 ≤ negationPrecedence := by decide
  obtain ⟨sumPhrase, sumNeed, -⟩ := exists_sum_phrase a n
  obtain ⟨inner, innerNeed, -⟩ := sumPhrase.exists_weaker weaker.1 weaker.2.1
  obtain ⟨first, firstNeed, firstSpent⟩ := (SignedPhrase.primary (.enclosed inner)).exists_phrase weaker.2.1
  obtain ⟨signed, signedNeed⟩ := exists_opposite_phrase a m
  obtain ⟨second, secondNeed, -⟩ := signed.exists_phrase weaker.2.2
  have isSum : Operator.add.precedence = 3 := rfl
  obtain ⟨whole, need, -⟩ := (Phrase.binary .add isSum first second).exists_weaker weaker.1 weaker.2.1
  rw [enclosedSumTokens]
  refine ⟨whole, ?_⟩
  rw [need, Phrase.need, firstNeed, firstSpent, secondNeed, signedNeed, SignedPhrase.need, PrimaryPhrase.need,
    innerNeed, sumNeed]
  omega

theorem printable_enclosedSumTokens (inBounds : a.InBounds) (n m : Nat) :
    ∀ token ∈ enclosedSumTokens a n m, token.Printable := by
  have inSum (n : Nat) : ∀ token ∈ sumTokens a n, token.Printable := by
    induction n with
    | zero => exact List.forall_mem_singleton.2 inBounds
    | succ n ih =>
      exact List.forall_mem_append.2
        ⟨ih, List.forall_mem_cons.2 ⟨trivial, List.forall_mem_singleton.2 inBounds⟩⟩
  have inOpposite (m : Nat) : ∀ token ∈ oppositeTokens a m, token.Printable := by
    induction m with
    | zero => exact List.forall_mem_singleton.2 inBounds
    | succ m ih => exact List.forall_mem_cons.2 ⟨trivial, ih⟩
  have enclosed : ∀ token ∈ .leftParen :: sumTokens a n ++ [.rightParen], token.Printable :=
    List.forall_mem_append.2
      ⟨List.forall_mem_cons.2 ⟨trivial, inSum n⟩, List.forall_mem_singleton.2 trivial⟩
  exact List.forall_mem_append.2 ⟨enclosed, List.forall_mem_cons.2 ⟨trivial, inOpposite m⟩⟩

/-- With the parentheses in the text only the longer of the two counts. -/
theorem ofFormula_enclosedSum (inBounds : a.InBounds) (n m : Nat) : ofFormula (enclosedSum a n m) =
    if max n m + 2 ≤ maxNesting then .ok (.binary .add (sum a n) (opposite a m)) else .error .tooNested := by
  obtain ⟨phrase, need⟩ := exists_enclosedSum_phrase a n m
  rw [enclosedSum, ofFormula_spell phrase (printable_enclosedSumTokens a inBounds n m), need]

/-- Printed without them, both count. -/
theorem nesting_enclosedSum (n m : Nat) : nesting (.binary .add (sum a n) (opposite a m)) = n + m + 2 := by
  have inSum (n : Nat) : (sum a n).nestingAt 3 = n ∧ (sum a n).chainLength 3 = n := by
    induction n with
    | zero => exact ⟨rfl, rfl⟩
    | succ n ih =>
      simp [sum, nestingAt, chainLength, Operator.precedence, ih]
  have inOpposite (level : Nat) : (opposite a m).nestingAt level = m := by
    induction m generalizing level with
    | zero => rfl
    | succ m ih => rw [opposite, nestingAt, ih]
  have isSum : Operator.add.precedence = 3 := rfl
  have unenclosed : ¬ 3 < 1 := by decide
  simp only [nesting, nestingAt, isSum, inSum, inOpposite, if_neg unenclosed]
  omega

end Sums

/-! ## Accepted formulas -/

/-- What an accepted formula is parsed as is parsed again from its printed form, unless that is refused
as nested too deeply. -/
theorem ofFormula_formula_of_accepted {source : String} (accepted : ofFormula source = .ok e) :
    ofFormula e.formula = .ok e ∨ ofFormula e.formula = .error .tooNested := by
  rw [ofFormula_formula (printable_of_ofFormula accepted)]
  split
  · exact .inl rfl
  · exact .inr rfl

theorem ofFormula_formula_of_accepted_sum :
    ofFormula (enclosedSum ⟨0, 0⟩ 2 1) = .ok (.binary .add (sum ⟨0, 0⟩ 2) (opposite ⟨0, 0⟩ 1)) ∧
      (ofFormula (formula (.binary .add (sum ⟨0, 0⟩ 2) (opposite ⟨0, 0⟩ 1))) =
          .ok (.binary .add (sum ⟨0, 0⟩ 2) (opposite ⟨0, 0⟩ 1)) ∨
        ofFormula (formula (.binary .add (sum ⟨0, 0⟩ 2) (opposite ⟨0, 0⟩ 1))) = .error .tooNested) := by
  have accepted := ofFormula_enclosedSum ⟨0, 0⟩ (by decide) 2 1
  rw [if_pos (by decide)] at accepted
  exact ⟨accepted, ofFormula_formula_of_accepted accepted⟩

/-- The printed form of an accepted formula is accepted exactly if there is room for the expression
without the parentheses that are not printed, and is refused as nested too deeply otherwise. -/
theorem tooNested_iff_of_accepted {source : String} (accepted : ofFormula source = .ok e) :
    (ofFormula e.formula = .ok e ↔ e.nesting ≤ maxNesting) ∧
      (ofFormula e.formula = .error .tooNested ↔ maxNesting < e.nesting) := by
  rw [ofFormula_formula (printable_of_ofFormula accepted)]
  by_cases fits : e.nesting ≤ maxNesting
  · rw [if_pos fits]
    exact ⟨iff_of_true rfl fits, iff_of_false (by simp) (Nat.not_lt.2 fits)⟩
  · rw [if_neg fits]
    exact ⟨iff_of_false (by simp) fits, iff_of_true rfl (Nat.not_le.1 fits)⟩

/-- A formula that is accepted and refused when it is printed. -/
theorem tooNested_iff_of_accepted_sum :
    ofFormula (enclosedSum ⟨0, 0⟩ 127 128) = .ok (.binary .add (sum ⟨0, 0⟩ 127) (opposite ⟨0, 0⟩ 128)) ∧
      ofFormula (formula (.binary .add (sum ⟨0, 0⟩ 127) (opposite ⟨0, 0⟩ 128))) = .error .tooNested := by
  have accepted := ofFormula_enclosedSum ⟨0, 0⟩ (by decide) 127 128
  rw [if_pos (by decide)] at accepted
  have tooLong : maxNesting < nesting (.binary .add (sum ⟨0, 0⟩ 127) (opposite ⟨0, 0⟩ 128)) := by
    rw [nesting_enclosedSum]
    decide
  exact ⟨accepted, (tooNested_iff_of_accepted accepted).2.2 tooLong⟩

end Expr
end PageCalc
