import PageCalc.Proofs.Formula.Grammar

/-!
# The parser accepts its grammar

Whatever the parser accepts, the grammar derives. What the grammar derives is accepted exactly if there
is as much room as the derivation needs, and is refused as nested too deeply otherwise.
-/

namespace PageCalc

theorem Operator.precedence_lt (operator : Operator) : operator.precedence < negationPrecedence := by
  cases operator <;> decide

namespace Expr

variable {level room : Nat} {tokens rest : List Token} {e : Expr} {es : List Expr}

/-! ## Acceptance -/

/-- No operator that binds more strongly than `level` comes first. -/
def Stops (level : Nat) (tokens : List Token) : Prop :=
  ∀ operator rest, tokens = .operator operator :: rest → operator.precedence ≤ level

/-- What the parser does after an operand of a chain of the given level. -/
def resume (level room : Nat) (e : Expr) (rest : List Token) : Parsed :=
  if level < negationPrecedence then chain level room e rest else .ok (e, rest)

theorem Stops.mono {level' : Nat} (stops : Stops level tokens) (weaker : level ≤ level') :
    Stops level' tokens :=
  fun operator rest same => Nat.le_trans (stops operator rest same) weaker

theorem stops_of_ne {token : Token} (notOperator : ∀ operator, token ≠ .operator operator) :
    Stops level (token :: rest) := by
  rintro operator _ same
  cases same
  exact absurd rfl (notOperator operator)

theorem operatorAt?_of_stops (stops : Stops level tokens) : operatorAt? (level + 1) tokens = none := by
  unfold operatorAt?
  split
  · next operator rest =>
    have weak := stops operator rest rfl
    rw [if_neg (by omega)]
  · rfl

/-- A chain ends where only weaker operators may follow. -/
theorem resume_of_stops (stops : Stops level rest) : resume (level + 1) room e rest = .ok (e, rest) := by
  unfold resume
  split
  · rw [chain, operatorAt?_of_stops stops]
  · rfl

/-- A chain goes on with an operator of its level and the operand after it. -/
theorem resume_operator {right : Expr} {phrase : Phrase (level + 1) tokens right} (operator : Operator)
    (left : Expr) (precedence : operator.precedence = level) (stops : Stops level rest)
    (accepted : ∀ room, operand (level + 1) room (tokens ++ rest) =
      if phrase.need ≤ room then resume (level + 1) (room - phrase.spent) right rest
      else .error .tooNested) (room : Nat) :
    resume level room left (.operator operator :: (tokens ++ rest)) =
      if phrase.need + 1 ≤ room then resume level (room - 1) (.binary operator left right) rest
      else .error .tooNested := by
  have weak : level < negationPrecedence := precedence ▸ operator.precedence_lt
  rw [resume, if_pos weak, chain, operatorAt?, if_pos precedence]
  cases room with
  | zero => rfl
  | succ room =>
    simp only [accepted, resume_of_stops stops, Nat.add_le_add_iff_right]
    by_cases fits : phrase.need ≤ room
    · rw [if_pos fits, if_pos fits, resume, if_pos weak]
      rfl
    · rw [if_neg fits, if_neg fits]
      rfl

theorem dropPluses_of_primary (phrase : PrimaryPhrase tokens e) :
    dropPluses (tokens ++ rest) = tokens ++ rest := by
  obtain ⟨token, others, rfl, notOperator, -⟩ := phrase.head
  rw [List.cons_append, dropPluses]
  rintro _ same
  cases same
  exact notOperator .add rfl

theorem signed_of_primary (phrase : PrimaryPhrase tokens e) :
    signed room (tokens ++ rest) = primary room (tokens ++ rest) := by
  obtain ⟨token, others, isFirst, notOperator, -⟩ := phrase.head
  rw [signed, dropPluses_of_primary phrase]
  split
  · next isMinus =>
    rw [isFirst] at isMinus
    cases isMinus
    exact absurd rfl (notOperator .subtract)
  · rfl

/-- What is parsed in parentheses, or as an argument, is a phrase with nothing after it. -/
theorem expression_of_operand {phrase : Phrase 1 tokens e} (stops : Stops 0 rest)
    (accepted : ∀ room, operand 1 room (tokens ++ rest) =
      if phrase.need ≤ room then resume 1 (room - phrase.spent) e rest else .error .tooNested)
    (room : Nat) : expression room (tokens ++ rest) =
      if phrase.need + 1 ≤ room then .ok (e, rest) else .error .tooNested := by
  cases room with
  | zero => rw [expression]; rfl
  | succ room =>
    rw [expression, accepted, resume_of_stops stops]
    simp only [Nat.add_le_add_iff_right]

mutual

/-- The parser accepts a phrase and goes on after it if there is room for it. -/
theorem operand_phrase {level : Nat} {tokens : List Token} {e : Expr} (phrase : Phrase level tokens e)
    {rest : List Token} (stops : Stops level rest) (room : Nat) :
    operand level room (tokens ++ rest) =
      if phrase.need ≤ room then resume level (room - phrase.spent) e rest else .error .tooNested := by
  match phrase with
  | .tighter weak phrase =>
    have inner := operand_phrase phrase (stops.mono (Nat.le_succ level)) room
    rw [resume_of_stops stops] at inner
    rw [operand, if_pos weak, inner, Phrase.need, Phrase.spent, resume, if_pos weak]
    split <;> rfl
  | @Phrase.binary _ leftTokens rightTokens left right operator precedence leftPhrase rightPhrase =>
    have stopsHere : Stops level (.operator operator :: (rightTokens ++ rest)) := by
      rintro _ _ same
      cases same
      exact Nat.le_of_eq precedence
    have second := operand_phrase rightPhrase (stops.mono (Nat.le_succ level))
    have chained := resume_operator operator left precedence stops second
    rw [List.append_assoc, List.cons_append, operand_phrase leftPhrase stopsHere room, Phrase.need,
      Phrase.spent]
    -- The right side is parsed in the room that the chain on the left has not spent.
    by_cases leftFits : leftPhrase.need ≤ room
    · rw [if_pos leftFits, chained]
      by_cases rightFits : rightPhrase.need + 1 ≤ room - leftPhrase.spent
      · rw [if_pos rightFits, if_pos (by omega), Nat.sub_sub]
      · have spent := leftPhrase.spent_le
        rw [if_neg rightFits, if_neg (by omega)]
    · rw [if_neg leftFits, if_neg (by omega)]
  | .signed strong phrase =>
    rw [operand, if_neg (Nat.not_lt.2 strong), signed_phrase phrase rest room, Phrase.need, resume,
      if_neg (Nat.not_lt.2 strong)]
termination_by structural phrase

theorem signed_phrase {tokens : List Token} {e : Expr} (phrase : SignedPhrase tokens e)
    (rest : List Token) (room : Nat) :
    signed room (tokens ++ rest) = if phrase.need ≤ room then .ok (e, rest) else .error .tooNested := by
  match phrase with
  | .plus phrase =>
    have inner := signed_phrase phrase rest room
    rw [signed] at inner
    rw [signed, List.cons_append, dropPluses, inner, SignedPhrase.need]
  | @SignedPhrase.minus tokens e phrase =>
    have minus : dropPluses (.operator .subtract :: tokens ++ rest) =
        .operator .subtract :: (tokens ++ rest) := by
      rw [List.cons_append, dropPluses]
      simp
    rw [signed, minus, SignedPhrase.need]
    cases room with
    | zero => rfl
    | succ room =>
      simp only [signed_phrase phrase rest room, Nat.add_le_add_iff_right]
      split <;> rfl
  | .primary phrase =>
    rw [signed_of_primary phrase, SignedPhrase.need]
    exact primary_phrase phrase rest room
termination_by structural phrase

theorem primary_phrase {tokens : List Token} {e : Expr} (phrase : PrimaryPhrase tokens e)
    (rest : List Token) (room : Nat) :
    primary room (tokens ++ rest) = if phrase.need ≤ room then .ok (e, rest) else .error .tooNested := by
  match phrase with
  | .atom atom =>
    rw [PrimaryPhrase.need, if_pos (Nat.zero_le _)]
    cases atom <;> rw [List.singleton_append, primary]
  | @PrimaryPhrase.enclosed tokens e phrase =>
    have stops (level : Nat) : Stops level (.rightParen :: rest) := stops_of_ne (by simp)
    have inner := expression_of_operand (stops 0) (operand_phrase phrase (stops 1)) room
    rw [List.append_assoc, List.cons_append, List.singleton_append, primary, inner, PrimaryPhrase.need]
    split <;> rfl
  | .bareCall name =>
    rw [PrimaryPhrase.need, if_pos (Nat.zero_le _)]
    simp only [List.cons_append, List.nil_append]
    rw [primary]
  | @PrimaryPhrase.call tokens arguments name phrases =>
    have inner := arguments_phrases phrases rest room
    rw [List.append_assoc, List.cons_append, List.cons_append, List.singleton_append, primary, inner,
      PrimaryPhrase.need]
    · split <;> rfl
    · -- The arguments do not begin with the parenthesis that would end an empty list of them.
      intro _ isClosing
      obtain ⟨token, others, isFirst, notClosing⟩ := phrases.head
      rw [isFirst] at isClosing
      cases isClosing
      exact notClosing rfl
termination_by structural phrase

theorem arguments_phrases {tokens : List Token} {es : List Expr} (phrases : ArgumentPhrases tokens es)
    (rest : List Token) (room : Nat) :
    arguments room (tokens ++ .rightParen :: rest) =
      if phrases.need ≤ room then .ok (es, .rightParen :: rest) else .error .tooNested := by
  match phrases with
  | .last phrase =>
    have stops (level : Nat) : Stops level (.rightParen :: rest) := stops_of_ne (by simp)
    rw [arguments, expression_of_operand (stops 0) (operand_phrase phrase (stops 1)), ArgumentPhrases.need]
    split <;> rfl
  | @ArgumentPhrases.more firstTokens tokens e es first others =>
    have stops (level : Nat) : Stops level (.comma :: (tokens ++ .rightParen :: rest)) :=
      stops_of_ne (by simp)
    have shorter : (tokens ++ .rightParen :: rest).length <
        (firstTokens ++ .comma :: (tokens ++ .rightParen :: rest)).length := by simp; omega
    rw [List.append_assoc, List.cons_append, arguments,
      expression_of_operand (stops 0) (operand_phrase first (stops 1)) room, ArgumentPhrases.need]
    by_cases fits : first.need + 1 ≤ room
    · have onward := arguments_phrases others rest room
      rw [if_pos fits]
      simp only [bind, Except.bind, if_pos shorter, onward]
      by_cases othersFit : others.need ≤ room
      · rw [if_pos othersFit, if_pos (Nat.max_le.2 ⟨fits, othersFit⟩)]
        rfl
      · rw [if_neg othersFit, if_neg (by omega)]
    · rw [if_neg fits, if_neg (by omega)]
      rfl
termination_by structural phrases

end

/-- How much room a derivation needs decides whether the tokens are accepted. -/
theorem ofTokens_phrase (phrase : Phrase 1 tokens e) :
    ofTokens tokens = if phrase.need + 1 ≤ maxNesting then .ok e else .error .tooNested := by
  have stops (level : Nat) : Stops level [] := by rintro _ _ ⟨⟩
  have accepted := expression_of_operand (stops 0) (operand_phrase phrase (stops 1)) maxNesting
  rw [List.append_nil] at accepted
  rw [ofTokens, accepted]
  split <;> rfl

/-- The grammar is unambiguous. -/
theorem derives_unique {e' : Expr} (derives : Derives tokens e) (derivesToo : Derives tokens e') :
    e = e' := by
  obtain ⟨phrase⟩ := derives
  obtain ⟨phraseToo⟩ := derivesToo
  have stops (level : Nat) : Stops level [] := by rintro _ _ ⟨⟩
  -- With room for both derivations the parser can only give one expression.
  have accepted := operand_phrase phrase (stops 1) (max phrase.need phraseToo.need)
  have acceptedToo := operand_phrase phraseToo (stops 1) (max phrase.need phraseToo.need)
  rw [if_pos (Nat.le_max_left ..), resume_of_stops (stops 0)] at accepted
  rw [if_pos (Nat.le_max_right ..), resume_of_stops (stops 0), accepted] at acceptedToo
  cases acceptedToo
  rfl

/-! ## Soundness -/

/-- What was parsed from the beginning of the tokens is derived, and a failure is a fault of parsing. -/
def Justified {α : Type} (derived : List Token → α → Prop) (tokens : List Token) :
    Except FormulaError (α × List Token) → Prop
  | .ok (a, rest) => ∃ used, tokens = used ++ rest ∧ derived used a
  | .error fault => ∃ detail, fault = .parse detail

section

variable {α β : Type} {derived derivedToo : List Token → α → Prop} {result : List Token → β → Prop}
variable {outcome : Except FormulaError (α × List Token)}

theorem Justified.mono (justified : Justified derived tokens outcome)
    (weaker : ∀ used a, derived used a → derivedToo used a) : Justified derivedToo tokens outcome := by
  match outcome, justified with
  | .ok (a, rest), ⟨used, same, holds⟩ => exact ⟨used, same, weaker used a holds⟩
  | .error _, isParse => exact isParse

theorem Justified.after (before : List Token)
    (justified : Justified (fun used => derived (before ++ used)) tokens outcome) :
    Justified derived (before ++ tokens) outcome := by
  match outcome, justified with
  | .ok (a, rest), ⟨used, same, holds⟩ =>
    exact ⟨before ++ used, by rw [same, List.append_assoc], holds⟩
  | .error _, isParse => exact isParse

theorem Justified.bind {f : α × List Token → Except FormulaError (β × List Token)}
    (first : Justified derived tokens outcome)
    (next : ∀ used rest a, tokens = used ++ rest → derived used a →
      Justified (fun more => result (used ++ more)) rest (f (a, rest))) :
    Justified result tokens (outcome >>= f) := by
  match outcome, first with
  | .error _, isParse => exact isParse
  | .ok (a, rest), ⟨used, same, holds⟩ =>
    have onward := next used rest a same holds
    rw [same]
    exact onward.after used

theorem justified_expect {wanted : Token} {a : α} (holds : derived [wanted] a) :
    Justified derived tokens (expect wanted tokens >>= fun rest => .ok (a, rest)) := by
  unfold expect
  split
  · exact ⟨_, rfl⟩
  · next token rest =>
    by_cases isWanted : token = wanted
    · rw [if_pos isWanted]
      exact ⟨[wanted], by rw [isWanted]; rfl, holds⟩
    · rw [if_neg isWanted]
      exact ⟨_, rfl⟩

end

/-- The pluses before an operand belong to its phrase. -/
theorem justified_of_dropPluses {outcome : Parsed}
    (justified : Justified (fun used e => Nonempty (SignedPhrase used e)) (dropPluses tokens) outcome) :
    Justified (fun used e => Nonempty (SignedPhrase used e)) tokens outcome := by
  fun_induction dropPluses tokens with
  | case1 rest ih =>
    refine ((ih justified).mono fun used e holds => ?_).after [.operator .add]
    obtain ⟨phrase⟩ := holds
    exact ⟨.plus phrase⟩
  | case2 tokens _ => exact justified

theorem operatorAt?_eq_some {operator : Operator} (found : operatorAt? level tokens = some (operator, rest)) :
    tokens = .operator operator :: rest ∧ operator.precedence = level := by
  unfold operatorAt? at found
  split at found
  · split at found
    · next precedence =>
      cases found
      exact ⟨rfl, precedence⟩
    · cases found
  · cases found

mutual

theorem justified_expression (room : Nat) (tokens : List Token) :
    Justified Derives tokens (expression room tokens) := by
  rw [expression.eq_def]
  match room with
  | 0 => exact ⟨_, rfl⟩
  | room + 1 => exact justified_operand 1 room tokens
termination_by (room, 0, 0)

theorem justified_operand (level room : Nat) (tokens : List Token) :
    Justified (fun used e => Nonempty (Phrase level used e)) tokens (operand level room tokens) := by
  rw [operand]
  by_cases weak : level < negationPrecedence
  · rw [if_pos weak]
    refine (justified_operand (level + 1) room tokens).bind ?_
    rintro used rest e - ⟨phrase⟩
    exact justified_chain level room used e rest (.tighter weak phrase)
  · rw [if_neg weak]
    refine (justified_signed room tokens).mono ?_
    rintro used e ⟨phrase⟩
    exact ⟨.signed (Nat.not_lt.1 weak) phrase⟩
termination_by (room, 4 + (negationPrecedence - level), 0)

theorem justified_chain (level room : Nat) (before : List Token) (left : Expr) (tokens : List Token)
    (leftPhrase : Phrase level before left) :
    Justified (fun used e => Nonempty (Phrase level (before ++ used) e)) tokens
      (chain level room left tokens) := by
  rw [chain]
  split
  · exact ⟨[], rfl, ⟨(List.append_nil before).symm ▸ leftPhrase⟩⟩
  · next operator rest found =>
    obtain ⟨rfl, precedence⟩ := operatorAt?_eq_some found
    match room with
    | 0 => exact ⟨_, rfl⟩
    | room + 1 =>
      refine Justified.after [.operator operator] ?_
      refine (justified_operand (level + 1) room rest).bind ?_
      rintro used rest' right - ⟨rightPhrase⟩
      have onward := justified_chain level room _ _ rest'
        (.binary operator precedence leftPhrase rightPhrase)
      simpa only [List.append_assoc, List.cons_append, List.nil_append] using onward
termination_by (room, 0, 0)

theorem justified_signed (room : Nat) (tokens : List Token) :
    Justified (fun used e => Nonempty (SignedPhrase used e)) tokens (signed room tokens) := by
  rw [signed]
  apply justified_of_dropPluses
  split
  · next rest same =>
    rw [same]
    match room with
    | 0 => exact ⟨_, rfl⟩
    | room + 1 =>
      refine Justified.after [.operator .subtract] ?_
      refine (justified_signed room rest).bind ?_
      rintro used rest' e - ⟨phrase⟩
      exact ⟨[], rfl, ⟨by simpa using SignedPhrase.minus phrase⟩⟩
  · refine (justified_primary room (dropPluses tokens)).mono ?_
    rintro used e ⟨phrase⟩
    exact ⟨.primary phrase⟩
termination_by (room, 3, 0)

theorem justified_primary (room : Nat) (tokens : List Token) :
    Justified (fun used e => Nonempty (PrimaryPhrase used e)) tokens (primary room tokens) := by
  rw [primary.eq_def]
  split
  case h_7 rest =>
    refine Justified.after [.leftParen] ?_
    refine (justified_expression room rest).bind ?_
    rintro used rest' e - ⟨phrase⟩
    exact justified_expect ⟨.enclosed phrase⟩
  case h_8 name rest => exact ⟨[.name name, .leftParen, .rightParen], rfl, ⟨.bareCall name⟩⟩
  case h_9 name rest _ =>
    refine Justified.after [.name name, .leftParen] ?_
    refine (justified_arguments room rest).bind ?_
    rintro used rest' es - ⟨phrases⟩
    exact justified_expect ⟨.call name phrases⟩
  all_goals first
    | exact ⟨_, rfl⟩
    | exact ⟨[_], rfl, ⟨.atom (by constructor)⟩⟩
termination_by (room, 2, 0)

theorem justified_arguments (room : Nat) (tokens : List Token) :
    Justified (fun used es => Nonempty (ArgumentPhrases used es)) tokens (arguments room tokens) := by
  rw [arguments]
  refine (justified_expression room tokens).bind ?_
  rintro used rest e - ⟨first⟩
  dsimp only
  split
  · next rest =>
    split
    · next shorter =>
      refine Justified.after [.comma] ?_
      refine (justified_arguments room rest).bind ?_
      rintro more rest' es - ⟨others⟩
      exact ⟨[], rfl, ⟨by simpa using ArgumentPhrases.more first others⟩⟩
    · exact ⟨_, rfl⟩
  · exact ⟨[], rfl, ⟨.last ((List.append_nil used).symm ▸ first)⟩⟩
termination_by (room, 1, tokens.length)

end

theorem justified_ofTokens (tokens : List Token) : match ofTokens tokens with
    | .ok e => Derives tokens e
    | .error fault => ∃ detail, fault = .parse detail := by
  have justified := justified_expression maxNesting tokens
  rw [ofTokens]
  match expression maxNesting tokens, justified with
  | .error _, isParse => exact isParse
  | .ok (e, []), ⟨used, same, derives⟩ => exact same.trans (List.append_nil used) ▸ derives
  | .ok (e, _ :: _), _ => exact ⟨_, rfl⟩

/-- The parser accepts exactly its grammar: an accepted list of tokens derives the expression that
the parser gives, and a list that derives an expression is parsed as it or refused as nested too
deeply. It is refused just if its derivation needs more room than there is, one level being taken up by
the formula itself. Nothing but faults of parsing is ever reported. The grammar derives no more than one
expression from a list. -/
theorem ofTokens_exact (tokens : List Token) :
    (∀ e, ofTokens tokens = .ok e → Derives tokens e) ∧
    (∀ e, Derives tokens e → ofTokens tokens = .ok e ∨ ofTokens tokens = .error .tooNested) ∧
    (∀ (e : Expr) (phrase : Phrase 1 tokens e),
      ofTokens tokens = if phrase.need + 1 ≤ maxNesting then .ok e else .error .tooNested) ∧
    (∀ fault, ofTokens tokens = .error fault → ∃ detail, fault = .parse detail) ∧
    ∀ e e', Derives tokens e → Derives tokens e' → e = e' := by
  have justified := justified_ofTokens tokens
  refine ⟨fun e accepted => ?_, fun e derives => ?_, fun e => ofTokens_phrase, fun fault refused => ?_,
    fun e e' => derives_unique⟩
  · rwa [accepted] at justified
  · obtain ⟨phrase⟩ := derives
    rw [ofTokens_phrase phrase]
    split
    · exact .inl rfl
    · exact .inr rfl
  · rwa [refused] at justified

/-- A truth value in so many pairs of parentheses. -/
def enclosed : Nat → List Token
  | 0 => [.boolean true]
  | pairs + 1 => .leftParen :: enclosed pairs ++ [.rightParen]

theorem exists_enclosed (pairs : Nat) : ∃ phrase : Phrase 1 (enclosed pairs) (.boolean true), phrase.need = pairs := by
  induction pairs with
  | zero =>
    obtain ⟨phrase, need, -⟩ := (Atom.boolean true).exists_phrase (show 1 ≤ negationPrecedence by decide)
    exact ⟨phrase, need⟩
  | succ pairs ih =>
    obtain ⟨inner, need⟩ := ih
    obtain ⟨phrase, whole, -⟩ :=
      (SignedPhrase.primary (.enclosed inner)).exists_phrase (show 1 ≤ negationPrecedence by decide)
    exact ⟨phrase, whole.trans (by rw [SignedPhrase.need, PrimaryPhrase.need, need])⟩

/-- Pairs of parentheses are accepted up to the limit, and one more is refused. -/
theorem ofTokens_enclosed : ofTokens (enclosed 255) = .ok (.boolean true) ∧
    ofTokens (enclosed 256) = .error .tooNested := by
  obtain ⟨shallow, fits⟩ := exists_enclosed 255
  obtain ⟨deep, exceeds⟩ := exists_enclosed 256
  have accepted := (ofTokens_exact (enclosed 255)).2.2.1 (.boolean true) shallow
  have refused := (ofTokens_exact (enclosed 256)).2.2.1 (.boolean true) deep
  rw [fits] at accepted
  rw [exceeds] at refused
  exact ⟨accepted, refused⟩

end Expr
end PageCalc
