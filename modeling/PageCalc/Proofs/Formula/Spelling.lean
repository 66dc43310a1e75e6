import PageCalc.Proofs.Formula.Acceptance
import PageCalc.Proofs.Formula.Scanned

/-!
# Formulas without blanks

The tokens of a phrase can be written one after the other, with nothing between them. The text is scanned
as these tokens again, so it is accepted as the formula of the phrase if there is room for it. What a
formula is accepted as can be printed.
-/

namespace PageCalc

open Text

/-! ## Spelled tokens -/

namespace Token

/-- The texts of the tokens, one after the other. -/
def spell (tokens : List Token) : List Char := tokens.flatMap chars

/-- The tokens are scanned from their spelling before `rest`. -/
def Scans (tokens : List Token) (rest : List Char) : Prop :=
  ∀ total, scanAll total (spell tokens ++ rest) = (scanAll total rest).map (tokens ++ ·)

/-- The tokens are scanned from their spelling before `rest`, which opens an operand. -/
structure Rescanned (tokens : List Token) (rest : List Char) : Prop where
  opens : Opens (spell tokens ++ rest)
  scans : Scans tokens rest

variable {token : Token} {tokens more : List Token} {rest : List Char}

theorem spell_append (tokens more : List Token) : spell (tokens ++ more) = spell tokens ++ spell more :=
  List.flatMap_append

theorem spell_cons (token : Token) (tokens : List Token) :
    spell (token :: tokens) = token.chars ++ spell tokens :=
  List.flatMap_cons

theorem scans_nil : Scans [] rest := by
  intro total
  show scanAll total rest = _
  cases scanAll total rest <;> rfl

theorem Scans.cons (first : token.ComesFirst (token.chars ++ (spell tokens ++ rest)) (spell tokens ++ rest))
    (others : Scans tokens rest) : Scans (token :: tokens) rest := by
  intro total
  rw [spell_cons, List.append_assoc, scanAll_of_comesFirst first, others]
  cases scanAll total rest <;> rfl

theorem Scans.append (first : Scans tokens (spell more ++ rest)) (others : Scans more rest) :
    Scans (tokens ++ more) rest := by
  intro total
  rw [spell_append, List.append_assoc, first, others]
  cases scanAll total rest with
  | error fault => rfl
  | ok found => exact congrArg Except.ok (List.append_assoc tokens more found).symm

/-- A token that is no operator comes before tokens that are scanned. -/
theorem Rescanned.cons (first : token.ComesFirst (token.chars ++ (spell tokens ++ rest)) (spell tokens ++ rest))
    (notOperator : ∀ operator, token ≠ .operator operator) (others : Scans tokens rest) :
    Rescanned (token :: tokens) rest where
  opens := by
    rw [spell_cons, List.append_assoc]
    exact opens_of_comesFirst first notOperator
  scans := .cons first others

theorem Rescanned.append (first : Rescanned tokens (spell more ++ rest)) (others : Scans more rest) :
    Rescanned (tokens ++ more) rest where
  opens := by
    rw [spell_append, List.append_assoc]
    exact first.opens
  scans := first.scans.append others

/-- An operator is scanned before an operand. -/
theorem Rescanned.operator (operator : Operator) (operand : Rescanned tokens rest) :
    Scans (.operator operator :: tokens) rest :=
  .cons (operator_comesFirst operator operand.opens) operand.scans

theorem parenthesis_comesFirst : leftParen.ComesFirst ('(' :: rest) rest :=
  fun _ => ⟨'(', rest, rfl, rfl, rfl⟩

theorem scans_rightParen : Scans [.rightParen] rest := by
  have first : rightParen.ComesFirst (')' :: rest) rest := fun _ => ⟨')', rest, rfl, rfl, rfl⟩
  exact .cons first scans_nil

theorem scans_comma (others : Scans tokens rest) : Scans (.comma :: tokens) rest := by
  have first : comma.ComesFirst (',' :: (spell tokens ++ rest)) (spell tokens ++ rest) :=
    fun _ => ⟨',', _, rfl, rfl, rfl⟩
  exact .cons first others

end Token

open Token (spell spell_cons Rescanned Closes closes_cons scans_comma scans_rightParen scans_nil scanAll
  parenthesis_comesFirst name_comesFirst atom_comesFirst symbol_closes)

/-! ## Spelled phrases -/

mutual

/-- A phrase is scanned from its spelling if nothing after it goes on with its last operand. -/
theorem Phrase.rescanned {level : Nat} {tokens : List Token} {e : Expr} (phrase : Phrase level tokens e)
    (printable : ∀ token ∈ tokens, token.Printable) {rest : List Char} (closes : Closes rest) :
    Rescanned tokens rest := by
  match phrase with
  | .tighter _ phrase => exact phrase.rescanned printable closes
  | @Phrase.binary _ leftTokens rightTokens left right operator _ leftPhrase rightPhrase =>
    obtain ⟨leftPrintable, rightPrintable⟩ := List.forall_mem_append.1 printable
    have second := rightPhrase.rescanned (List.forall_mem_cons.1 rightPrintable).2 closes
    -- The operator ends the left operand, and the right operand does not go on with the operator.
    have closesHere : Closes (spell (.operator operator :: rightTokens) ++ rest) := by
      rw [spell_cons, List.append_assoc]
      exact symbol_closes operator
    have first := leftPhrase.rescanned leftPrintable closesHere
    exact first.append (second.operator operator)
  | .signed _ phrase => exact phrase.rescanned printable closes
termination_by structural phrase

theorem SignedPhrase.rescanned {tokens : List Token} {e : Expr} (phrase : SignedPhrase tokens e)
    (printable : ∀ token ∈ tokens, token.Printable) {rest : List Char} (closes : Closes rest) :
    Rescanned tokens rest := by
  match phrase with
  | .plus phrase =>
    have inner := phrase.rescanned (List.forall_mem_cons.1 printable).2 closes
    exact ⟨⟨'+', _, rfl, by decide⟩, inner.operator .add⟩
  | .minus phrase =>
    have inner := phrase.rescanned (List.forall_mem_cons.1 printable).2 closes
    exact ⟨⟨'-', _, rfl, by decide⟩, inner.operator .subtract⟩
  | .primary phrase => exact phrase.rescanned printable closes
termination_by structural phrase

theorem PrimaryPhrase.rescanned {tokens : List Token} {e : Expr} (phrase : PrimaryPhrase tokens e)
    (printable : ∀ token ∈ tokens, token.Printable) {rest : List Char} (closes : Closes rest) :
    Rescanned tokens rest := by
  match phrase with
  | .atom atom =>
    have first := atom_comesFirst atom (printable _ List.mem_cons_self) closes
    exact Rescanned.cons first (by cases atom <;> simp) scans_nil
  | @PrimaryPhrase.enclosed tokens e phrase =>
    obtain ⟨inside, -⟩ := List.forall_mem_append.1 (List.forall_mem_cons.1 printable).2
    have inner : Rescanned tokens (')' :: rest) := phrase.rescanned inside (closes_cons (by decide))
    have whole := inner.append scans_rightParen
    exact Rescanned.cons parenthesis_comesFirst (by simp) whole.scans
  | .bareCall name =>
    have isName : IsName name := printable _ List.mem_cons_self
    have closed : Rescanned [.leftParen, .rightParen] rest :=
      Rescanned.cons parenthesis_comesFirst (by simp) scans_rightParen
    exact Rescanned.cons (name_comesFirst isName rfl) (by simp) closed.scans
  | @PrimaryPhrase.call tokens arguments name phrases =>
    have isName : IsName name := printable _ List.mem_cons_self
    obtain ⟨-, enclosed⟩ := List.forall_mem_cons.1 (List.forall_mem_cons.1 printable).2
    have inner := phrases.rescanned (List.forall_mem_append.1 enclosed).1 rest
    have opened : Rescanned (.leftParen :: tokens ++ [.rightParen]) rest :=
      Rescanned.cons parenthesis_comesFirst (by simp) (inner.append scans_rightParen).scans
    exact Rescanned.cons (name_comesFirst isName rfl) (by simp) opened.scans
termination_by structural phrase

theorem ArgumentPhrases.rescanned {tokens : List Token} {es : List Expr}
    (phrases : ArgumentPhrases tokens es) (printable : ∀ token ∈ tokens, token.Printable)
    (rest : List Char) : Rescanned tokens (')' :: rest) := by
  match phrases with
  | .last phrase => exact phrase.rescanned printable (closes_cons (by decide))
  | @ArgumentPhrases.more firstTokens tokens e es first others =>
    obtain ⟨firstPrintable, othersPrintable⟩ := List.forall_mem_append.1 printable
    have onward := others.rescanned (List.forall_mem_cons.1 othersPrintable).2 rest
    have before : Rescanned firstTokens (spell (.comma :: tokens) ++ ')' :: rest) :=
      first.rescanned firstPrintable (closes_cons (by decide))
    exact before.append (scans_comma onward.scans)
termination_by structural phrases

end

/-! ## Accepted spellings -/

namespace Expr

variable {tokens : List Token} {e : Expr}

theorem ofText_spell (phrase : Phrase 1 tokens e) (printable : ∀ token ∈ tokens, token.Printable) :
    Token.ofText (String.ofList (spell tokens)) = .ok tokens := by
  have nothing : Closes [] := by rintro c ⟨⟩
  have scanned := (phrase.rescanned printable nothing).scans
  have nil (total : Nat) : scanAll total [] = .ok [] := by
    rw [scanAll]
    rfl
  rw [Token.ofText, String.toList_ofList]
  have whole := scanned (Token.byteLength (spell tokens))
  rwa [List.append_nil, nil, Except.map, List.append_nil] at whole

/-- The text of a phrase is accepted as its formula if there is room for it. -/
theorem ofFormula_spell (phrase : Phrase 1 tokens e) (printable : ∀ token ∈ tokens, token.Printable) :
    ofFormula (String.ofList ('=' :: spell tokens)) =
      if phrase.need + 1 ≤ maxNesting then .ok e else .error .tooNested := by
  have nothing : Closes [] := by rintro c ⟨⟩
  obtain ⟨c, cs, start, notBlank, -⟩ := (phrase.rescanned printable nothing).opens
  rw [List.append_nil] at start
  have notEmpty : (trim (spell tokens)).isEmpty = false := by
    rw [List.isEmpty_eq_false_iff]
    exact trim_ne_nil (by rw [start]; exact List.mem_cons_self) notBlank
  unfold ofFormula
  simp only [String.toList_ofList, notEmpty, Bool.false_eq_true, if_false, ofText_spell phrase printable]
  exact ofTokens_phrase phrase

/-- The formula of an address refers to the cell. -/
theorem ofFormula_text {a : Address} (inBounds : a.InBounds) :
    ofFormula ("=" ++ a.text) = .ok (.reference (.cell a)) := by
  have weaker : 1 ≤ negationPrecedence := by decide
  obtain ⟨phrase, need, -⟩ := (Atom.cell a).exists_phrase weaker
  have isText : "=" ++ a.text = String.ofList ('=' :: spell [.cell a]) := by
    simp [spell, Token.chars]
  rw [isText, ofFormula_spell phrase (by simpa [Token.Printable] using inBounds), need]
  rfl

end Expr

/-! ## What can be printed -/

section Names

variable {name : String}

theorem upper_of_isWordChar (word : ∀ c ∈ name.toList, Token.isWordChar c) :
    upper name = String.ofList (name.toList.map Char.toUpper) := by
  rw [upper, List.map_eq_flatMap]
  congr 1
  refine List.flatMap_congr fun c member => ?_
  rw [upperForm, if_pos (toNat_lt_of_isWordChar (word c member))]

theorem IsName.upper (isName : IsName name) : IsName (upper name) := by
  obtain ⟨c, rest, split, starts⟩ := isName.starts
  rw [upper_of_isWordChar isName.word]
  refine ⟨⟨c.toUpper, rest.map Char.toUpper, ?_, (Token.startsWord_spec starts).2.2⟩, fun d member => ?_⟩
  · rw [String.toList_ofList, split, List.map_cons]
  · rw [String.toList_ofList] at member
    obtain ⟨c, inName, rfl⟩ := List.mem_map.1 member
    exact (Token.isWordChar_spec (isName.word c inName)).2.2.2.2.2.2.1

theorem IsName.upper_upper (isName : IsName name) : Text.upper (Text.upper name) = Text.upper name := by
  rw [upper_of_isWordChar isName.upper.word, upper_of_isWordChar isName.word, String.toList_ofList,
    List.map_map]
  congr 1
  exact List.map_congr_left fun c member => (Token.isWordChar_spec (isName.word c member)).2.2.2.2.2.2.2

end Names

def Reference.Printable : Reference → Prop
  | .cell a => a.InBounds
  | .range r => r.InBounds
  | .external e => e.Printable

namespace Expr

mutual

/-- The expression is printed as tokens that can be scanned. -/
def Printable : Expr → Prop
  | number x => Number.IsLiteral x
  | text _ | boolean _ => True
  | reference r => r.Printable
  | binary _ left right => left.Printable ∧ right.Printable
  | negate operand => operand.Printable
  | call name arguments => (IsName name ∧ upper name = name) ∧ AllPrintable arguments

def AllPrintable : List Expr → Prop
  | [] => True
  | e :: es => e.Printable ∧ AllPrintable es

end

end Expr

mutual

theorem Phrase.printable {level : Nat} {tokens : List Token} {e : Expr} (phrase : Phrase level tokens e)
    (printable : ∀ token ∈ tokens, token.Printable) : e.Printable := by
  match phrase with
  | .tighter _ phrase => exact phrase.printable printable
  | .binary _ _ left right =>
    obtain ⟨leftPrintable, rightPrintable⟩ := List.forall_mem_append.1 printable
    exact ⟨left.printable leftPrintable, right.printable (List.forall_mem_cons.1 rightPrintable).2⟩
  | .signed _ phrase => exact phrase.printable printable
termination_by structural phrase

theorem SignedPhrase.printable {tokens : List Token} {e : Expr} (phrase : SignedPhrase tokens e)
    (printable : ∀ token ∈ tokens, token.Printable) : e.Printable := by
  match phrase with
  | .plus phrase => exact phrase.printable (List.forall_mem_cons.1 printable).2
  | .minus phrase => exact phrase.printable (List.forall_mem_cons.1 printable).2
  | .primary phrase => exact phrase.printable printable
termination_by structural phrase

theorem PrimaryPhrase.printable {tokens : List Token} {e : Expr} (phrase : PrimaryPhrase tokens e)
    (printable : ∀ token ∈ tokens, token.Printable) : e.Printable := by
  match phrase with
  | .atom atom =>
    have printable := printable _ List.mem_cons_self
    cases atom <;> exact printable
  | .enclosed phrase =>
    obtain ⟨inside, -⟩ := List.forall_mem_append.1 (List.forall_mem_cons.1 printable).2
    exact phrase.printable inside
  | .bareCall name =>
    have isName : IsName name := printable _ List.mem_cons_self
    exact ⟨⟨isName.upper, isName.upper_upper⟩, trivial⟩
  | .call name phrases =>
    have isName : IsName name := printable _ List.mem_cons_self
    obtain ⟨-, enclosed⟩ := List.forall_mem_cons.1 (List.forall_mem_cons.1 printable).2
    exact ⟨⟨isName.upper, isName.upper_upper⟩, phrases.printable (List.forall_mem_append.1 enclosed).1⟩
termination_by structural phrase

theorem ArgumentPhrases.printable {tokens : List Token} {es : List Expr}
    (phrases : ArgumentPhrases tokens es) (printable : ∀ token ∈ tokens, token.Printable) :
    Expr.AllPrintable es := by
  match phrases with
  | .last phrase => exact ⟨phrase.printable printable, trivial⟩
  | .more first others =>
    obtain ⟨firstPrintable, othersPrintable⟩ := List.forall_mem_append.1 printable
    exact ⟨first.printable firstPrintable, others.printable (List.forall_mem_cons.1 othersPrintable).2⟩
termination_by structural phrases

end

namespace Expr

/-- An accepted formula is scanned, and its tokens are accepted. -/
theorem exists_tokens_of_ofFormula {formula : String} {e : Expr} (accepted : ofFormula formula = .ok e) :
    ∃ body tokens, Token.ofText body = .ok tokens ∧ ofTokens tokens = .ok e := by
  unfold ofFormula at accepted
  split at accepted
  · next body _ =>
    split at accepted
    · cases accepted
    · cases scanned : Token.ofText (String.ofList body) with
      | error fault => rw [scanned] at accepted; cases accepted
      | ok tokens =>
        rw [scanned] at accepted
        exact ⟨_, tokens, scanned, accepted⟩
  · cases accepted

/-- What a formula is accepted as can be printed. -/
theorem printable_of_ofFormula {formula : String} {e : Expr} (accepted : ofFormula formula = .ok e) :
    e.Printable := by
  obtain ⟨body, tokens, scanned, accepted⟩ := exists_tokens_of_ofFormula accepted
  have justified := justified_ofTokens tokens
  rw [accepted] at justified
  obtain ⟨phrase⟩ := justified
  exact phrase.printable (Token.scanAll_eq_ok_iff.1 scanned).printable

end Expr
end PageCalc
