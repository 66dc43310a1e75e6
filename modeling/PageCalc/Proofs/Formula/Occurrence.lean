import PageCalc.Proofs.Formula.Acceptance

/-!
# References in formulas

The references of an expression are those at any of its places. In a formula they come in the order in
which they were written.
-/

namespace PageCalc

/-- The reference stands somewhere in the expression. -/
inductive Expr.Contains (r : Reference) : Expr → Prop where
  | here : (Expr.reference r).Contains r
  | left {operator : Operator} {left right : Expr} (inside : left.Contains r) :
      (Expr.binary operator left right).Contains r
  | right {operator : Operator} {left right : Expr} (inside : right.Contains r) :
      (Expr.binary operator left right).Contains r
  | operand {operand : Expr} (inside : operand.Contains r) : (Expr.negate operand).Contains r
  | argument {name : String} {e : Expr} {arguments : List Expr} (isArgument : e ∈ arguments)
      (inside : e.Contains r) : (Expr.call name arguments).Contains r

/-- The reference that a token is. -/
def Token.reference? : Token → Option Reference
  | .cell a => some (.cell a)
  | .range r => some (.range r)
  | .external e => some (.external e)
  | _ => none

namespace Expr

variable {r : Reference}

theorem mem_referencesOf {es : List Expr} : r ∈ referencesOf es ↔ ∃ e ∈ es, r ∈ e.references := by
  induction es with
  | nil => simp [referencesOf]
  | cons e es ih => simp [referencesOf, ih]

theorem Contains.mem_references {e : Expr} (contains : e.Contains r) : r ∈ e.references := by
  induction contains with
  | here => simp [references]
  | left _ ih => simp [references, ih]
  | right _ ih => simp [references, ih]
  | operand _ ih => simpa [references] using ih
  | argument isArgument _ ih =>
    rw [references, mem_referencesOf]
    exact ⟨_, isArgument, ih⟩

theorem contains_of_mem (e : Expr) (member : r ∈ e.references) : e.Contains r := by
  match e with
  | .number _ | .text _ | .boolean _ => simp [references] at member
  | .reference other =>
    cases List.mem_singleton.1 (by simpa only [references] using member)
    exact .here
  | .binary operator left right =>
    simp only [references, List.mem_append] at member
    rcases member with inLeft | inRight
    · exact .left (contains_of_mem left inLeft)
    · exact .right (contains_of_mem right inRight)
  | .negate operand =>
    simp only [references] at member
    exact .operand (contains_of_mem operand member)
  | .call name arguments =>
    simp only [references, mem_referencesOf] at member
    obtain ⟨e, isArgument, inside⟩ := member
    exact .argument isArgument (contains_of_mem e inside)
termination_by sizeOf e

theorem mem_references_iff {e : Expr} : r ∈ e.references ↔ e.Contains r :=
  ⟨contains_of_mem e, Contains.mem_references⟩

/-! ## The order of writing -/

theorem references_atom {token : Token} {e : Expr} (atom : Atom token e) :
    e.references = token.reference?.toList := by
  cases atom <;> rfl

mutual

theorem references_phrase {level : Nat} {tokens : List Token} {e : Expr} (phrase : Phrase level tokens e) :
    e.references = tokens.filterMap Token.reference? := by
  match phrase with
  | .tighter _ phrase => exact references_phrase phrase
  | .binary operator _ leftPhrase rightPhrase =>
    rw [references, references_phrase leftPhrase, references_phrase rightPhrase, List.filterMap_append]
    rfl
  | .signed _ phrase => exact references_signed phrase
termination_by structural phrase

theorem references_signed {tokens : List Token} {e : Expr} (phrase : SignedPhrase tokens e) :
    e.references = tokens.filterMap Token.reference? := by
  match phrase with
  | .plus phrase =>
    rw [references_signed phrase]
    rfl
  | .minus phrase =>
    rw [references, references_signed phrase]
    rfl
  | .primary phrase => exact references_primary phrase
termination_by structural phrase

theorem references_primary {tokens : List Token} {e : Expr} (phrase : PrimaryPhrase tokens e) :
    e.references = tokens.filterMap Token.reference? := by
  match phrase with
  | @PrimaryPhrase.atom token _ atom =>
    rw [references_atom atom]
    cases token <;> rfl
  | .enclosed phrase =>
    rw [references_phrase phrase, List.filterMap_append]
    exact (List.append_nil _).symm
  | .bareCall name => rfl
  | .call name phrases =>
    rw [references, references_arguments phrases, List.filterMap_append]
    exact (List.append_nil _).symm
termination_by structural phrase

theorem references_arguments {tokens : List Token} {es : List Expr} (phrases : ArgumentPhrases tokens es) :
    referencesOf es = tokens.filterMap Token.reference? := by
  match phrases with
  | .last phrase => rw [referencesOf, referencesOf, List.append_nil, references_phrase phrase]
  | .more first others =>
    rw [referencesOf, references_phrase first, references_arguments others, List.filterMap_append]
    rfl
termination_by structural phrases

end

/-- The references of a parsed expression are those among its tokens, in the same order. -/
theorem references_ofTokens {tokens : List Token} {e : Expr} (parsed : ofTokens tokens = .ok e) :
    e.references = tokens.filterMap Token.reference? := by
  have derives := justified_ofTokens tokens
  rw [parsed] at derives
  obtain ⟨phrase⟩ := derives
  exact references_phrase phrase

end Expr
end PageCalc
