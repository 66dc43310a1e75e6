import Mathlib.Order.Bounds.Defs
import Mathlib.Tactic.Ring
import PageCalc.Proofs.Formula.Rendering

/-!
# The height of accepted formulas

How much room there is for nesting bounds the height of what is accepted, but not by the room itself. A
chain gives back the room of its operators where it ends. It may then be the left operand of a chain of
weaker operators, which takes up the same room once more. So the room bounds how many nodes there are on
a path besides the operators that it enters on the left. Of these there may be as many as there is room
for on each of the four levels of operators, and again inside all parentheses.
-/

namespace PageCalc

namespace Expr

variable {e : Expr}

theorem height_pos (e : Expr) : 0 < e.height := by
  cases e <;> exact Nat.succ_pos _

theorem height_le_heightOf {es : List Expr} (member : e ∈ es) : e.height ≤ heightOf es := by
  induction es with
  | nil => cases member
  | cons first es ih =>
    rcases List.mem_cons.1 member with rfl | member
    · exact Nat.le_max_left ..
    · exact (ih member).trans (Nat.le_max_right ..)

/-! ## Paths -/

/-- A path from an expression down to a leaf. The operators that it enters on the left are counted apart
from its other nodes. -/
inductive Path : Expr → (nodes entered : Nat) → Prop where
  | leaf {e : Expr} (alone : e.height = 1) : Path e 1 0
  | left {operator : Operator} {left right : Expr} {nodes entered : Nat} (path : Path left nodes entered) :
      Path (.binary operator left right) nodes (entered + 1)
  | right {operator : Operator} {left right : Expr} {nodes entered : Nat} (path : Path right nodes entered) :
      Path (.binary operator left right) (nodes + 1) entered
  | operand {e : Expr} {nodes entered : Nat} (path : Path e nodes entered) :
      Path (.negate e) (nodes + 1) entered
  | argument {name : String} {es : List Expr} {e : Expr} {nodes entered : Nat} (member : e ∈ es)
      (path : Path e nodes entered) : Path (.call name es) (nodes + 1) entered

theorem Path.le_height {nodes entered : Nat} (path : e.Path nodes entered) :
    nodes + entered ≤ e.height := by
  induction path with
  | leaf alone => exact alone.ge
  | left _ ih | right _ ih =>
    rw [height]
    omega
  | operand _ ih =>
    rw [height]
    omega
  | argument member _ ih =>
    have bound := height_le_heightOf member
    rw [height]
    omega

mutual

/-- Some path is as long as the expression is high. -/
theorem exists_path (e : Expr) : ∃ nodes entered, e.Path nodes entered ∧ nodes + entered = e.height := by
  match e with
  | .number _ | .text _ | .boolean _ | .reference _ => exact ⟨1, 0, .leaf rfl, rfl⟩
  | .binary operator left right =>
    by_cases higher : right.height ≤ left.height
    · obtain ⟨nodes, entered, path, whole⟩ := exists_path left
      refine ⟨nodes, entered + 1, .left path, ?_⟩
      rw [height, Nat.max_eq_left higher, ← whole, Nat.add_assoc]
    · obtain ⟨nodes, entered, path, whole⟩ := exists_path right
      refine ⟨nodes + 1, entered, .right path, ?_⟩
      rw [height, Nat.max_eq_right (Nat.le_of_not_le higher), ← whole, Nat.add_right_comm]
  | .negate operand =>
    obtain ⟨nodes, entered, path, whole⟩ := exists_path operand
    refine ⟨nodes + 1, entered, .operand path, ?_⟩
    rw [height, ← whole, Nat.add_right_comm]
  | .call name arguments =>
    rcases exists_argumentPath arguments with rfl | ⟨e, member, nodes, entered, path, whole⟩
    · exact ⟨1, 0, .leaf rfl, rfl⟩
    · refine ⟨nodes + 1, entered, .argument member path, ?_⟩
      rw [height, ← whole, Nat.add_right_comm]
termination_by structural e

theorem exists_argumentPath (es : List Expr) :
    es = [] ∨ ∃ e ∈ es, ∃ nodes entered, e.Path nodes entered ∧ nodes + entered = heightOf es := by
  match es with
  | [] => exact .inl rfl
  | first :: others =>
    refine .inr ?_
    by_cases higher : heightOf others ≤ first.height
    · obtain ⟨nodes, entered, path, whole⟩ := exists_path first
      exact ⟨first, List.mem_cons_self, nodes, entered, path, whole.trans (Nat.max_eq_left higher).symm⟩
    · rcases exists_argumentPath others with rfl | ⟨e, member, nodes, entered, path, whole⟩
      · exact absurd (Nat.zero_le _) higher
      · exact ⟨e, List.mem_cons_of_mem _ member, nodes, entered, path,
          whole.trans (Nat.max_eq_right (Nat.le_of_not_le higher)).symm⟩
termination_by structural es

end

/-- All paths have so many nodes and enter so many operators on the left, at most. -/
def PathsWithin (e : Expr) (nodes entered : Nat) : Prop :=
  ∀ n m, e.Path n m → n ≤ nodes ∧ m ≤ entered

section PathsWithin

variable {nodes entered : Nat}

theorem PathsWithin.mono {nodes' entered' : Nat} (within : e.PathsWithin nodes entered)
    (moreNodes : nodes ≤ nodes') (moreEntered : entered ≤ entered') : e.PathsWithin nodes' entered' :=
  fun n m path => (within n m path).imp (·.trans moreNodes) (·.trans moreEntered)

theorem pathsWithin_atom {token : Token} (atom : Atom token e) : e.PathsWithin (nodes + 1) entered := by
  intro n m path
  cases atom <;> cases path <;> exact ⟨Nat.le_add_left .., Nat.zero_le _⟩

theorem pathsWithin_binary {operator : Operator} {left right : Expr}
    (inLeft : left.PathsWithin (nodes + 1) entered) (inRight : right.PathsWithin nodes (entered + 1)) :
    (binary operator left right).PathsWithin (nodes + 1) (entered + 1) := by
  intro n m path
  cases path with
  | leaf => exact ⟨Nat.le_add_left .., Nat.zero_le _⟩
  | left path => exact (inLeft _ _ path).imp_right Nat.succ_le_succ
  | right path => exact (inRight _ _ path).imp_left Nat.succ_le_succ

theorem pathsWithin_negate (within : e.PathsWithin nodes entered) :
    (negate e).PathsWithin (nodes + 1) entered := by
  intro n m path
  cases path with
  | leaf => exact ⟨Nat.le_add_left .., Nat.zero_le _⟩
  | operand path => exact (within _ _ path).imp_left Nat.succ_le_succ

theorem pathsWithin_call {name : String} {es : List Expr} (within : ∀ e ∈ es, e.PathsWithin nodes entered) :
    (call name es).PathsWithin (nodes + 1) entered := by
  intro n m path
  cases path with
  | leaf => exact ⟨Nat.le_add_left .., Nat.zero_le _⟩
  | argument member path => exact (within _ member _ _ path).imp_left Nat.succ_le_succ

end PathsWithin

/-! ## The bound -/

/-- How many operators a path may enter on the left in parentheses, or in an argument, in the given
room. -/
def mostEntered : (room : Nat) → Nat
  | 0 => 0
  -- Four chains of as many operators as there is room for, and what is inside their first operand.
  | room + 1 => mostEntered room + 4 * room

/-- How many operators a path may enter on the left in an operand of operators weaker than `level`. -/
def mostEnteredAt (level room : Nat) : Nat := mostEntered room + (negationPrecedence - level) * room

theorem mostEntered_eq (room : Nat) : mostEntered room = 2 * room * (room - 1) := by
  induction room with
  | zero => rfl
  | succ room ih =>
    rw [mostEntered, ih]
    cases room with
    | zero => rfl
    | succ room =>
      simp only [Nat.add_sub_cancel]
      ring

theorem mostEntered_mono {room wider : Nat} (le : room ≤ wider) : mostEntered room ≤ mostEntered wider := by
  induction le with
  | refl => exact Nat.le_refl _
  | step _ ih => exact ih.trans (Nat.le_add_right ..)

theorem mostEnteredAt_mono {level room wider : Nat} (le : room ≤ wider) :
    mostEnteredAt level room ≤ mostEnteredAt level wider :=
  Nat.add_le_add (mostEntered_mono le) (Nat.mul_le_mul_left _ le)

/-- A whole chain is an operand of the weaker operators. -/
theorem mostEnteredAt_eq {level : Nat} (weak : level < negationPrecedence) (room : Nat) :
    mostEnteredAt level room = mostEnteredAt (level + 1) room + room := by
  have split : negationPrecedence - level = (negationPrecedence - (level + 1)) + 1 := by omega
  rw [mostEnteredAt, mostEnteredAt, split, Nat.succ_mul, Nat.add_assoc]

end Expr

open PageCalc.Expr (mostEntered mostEnteredAt)

/-! ## Derivations keep to it -/

theorem Phrase.spent_eq_zero {level : Nat} {tokens : List Token} {e : Expr} (phrase : Phrase level tokens e)
    (strong : negationPrecedence ≤ level) : phrase.spent = 0 := by
  cases phrase with
  | tighter | signed => rfl
  | binary operator precedence =>
    have weak := operator.precedence_lt
    omega

/-- The operators of a chain are as many as there is room for, at most. -/
theorem Phrase.mostEnteredAt_spent {level room : Nat} {tokens : List Token} {e : Expr}
    (phrase : Phrase level tokens e) (fits : phrase.need ≤ room) :
    mostEnteredAt (level + 1) room + phrase.spent ≤ mostEnteredAt level room := by
  by_cases weak : level < negationPrecedence
  · have few := phrase.spent_le
    rw [Expr.mostEnteredAt_eq weak]
    omega
  · have none : negationPrecedence - (level + 1) = negationPrecedence - level := by omega
    rw [phrase.spent_eq_zero (Nat.not_lt.1 weak), mostEnteredAt, mostEnteredAt, none, Nat.add_zero]

/-- What is parsed in parentheses, or as an argument, has less room by one. -/
theorem Phrase.pathsWithin_inside {room : Nat} {tokens : List Token} {e : Expr} {phrase : Phrase 1 tokens e}
    (within : ∀ room, phrase.need ≤ room →
      e.PathsWithin (room + 1) (mostEnteredAt 2 room + phrase.spent))
    (fits : phrase.need + 1 ≤ room) : e.PathsWithin room (mostEntered room) := by
  obtain ⟨room, rfl⟩ := Nat.exists_eq_add_one.2 (Nat.zero_lt_of_lt fits)
  have fits := Nat.le_of_succ_le_succ fits
  exact (within room fits).mono (Nat.le_refl _) (phrase.mostEnteredAt_spent fits)

mutual

/-- The operators of a chain are entered on the left on the way to its first operand. -/
theorem Phrase.pathsWithin {level : Nat} {tokens : List Token} {e : Expr} (phrase : Phrase level tokens e)
    (room : Nat) (fits : phrase.need ≤ room) :
    e.PathsWithin (room + 1) (mostEnteredAt (level + 1) room + phrase.spent) := by
  match phrase with
  | .tighter _ inner =>
    rw [Phrase.need] at fits
    exact (inner.pathsWithin room fits).mono (Nat.le_refl _) (inner.mostEnteredAt_spent fits)
  | .binary operator _ first second =>
    rw [Phrase.need] at fits
    have inFirst := first.pathsWithin room (by omega)
    -- The second operand has the room that the operators before it have left over.
    have rest : second.need ≤ room - (first.spent + 1) := by omega
    have fewer : mostEnteredAt (level + 1) (room - (first.spent + 1)) ≤ mostEnteredAt (level + 1) room :=
      Expr.mostEnteredAt_mono (Nat.sub_le room (first.spent + 1))
    have spent := second.mostEnteredAt_spent rest
    have inSecond : Expr.PathsWithin _ room (mostEnteredAt (level + 1) room + first.spent + 1) :=
      (second.pathsWithin _ rest).mono (by omega) (by omega)
    exact Expr.pathsWithin_binary inFirst inSecond
  | .signed _ inner =>
    rw [Phrase.need] at fits
    exact (inner.pathsWithin room fits).mono (Nat.le_refl _) (Nat.le_add_right ..)
termination_by structural phrase

theorem SignedPhrase.pathsWithin {tokens : List Token} {e : Expr} (phrase : SignedPhrase tokens e)
    (room : Nat) (fits : phrase.need ≤ room) : e.PathsWithin (room + 1) (mostEntered room) := by
  match phrase with
  | .plus inner => exact inner.pathsWithin room fits
  | .minus inner =>
    rw [SignedPhrase.need] at fits
    obtain ⟨room, rfl⟩ := Nat.exists_eq_add_one.2 (Nat.zero_lt_of_lt fits)
    have within := inner.pathsWithin room (Nat.le_of_succ_le_succ fits)
    exact (Expr.pathsWithin_negate within).mono (Nat.le_refl _) (Nat.le_add_right ..)
  | .primary inner => exact inner.pathsWithin room fits
termination_by structural phrase

theorem PrimaryPhrase.pathsWithin {tokens : List Token} {e : Expr} (phrase : PrimaryPhrase tokens e)
    (room : Nat) (fits : phrase.need ≤ room) : e.PathsWithin (room + 1) (mostEntered room) := by
  match phrase with
  | .atom atom => exact Expr.pathsWithin_atom atom
  | .enclosed inner =>
    exact (Phrase.pathsWithin_inside inner.pathsWithin fits).mono (Nat.le_succ _) (Nat.le_refl _)
  | .bareCall _ => exact Expr.pathsWithin_call nofun
  | .call _ phrases => exact Expr.pathsWithin_call (phrases.pathsWithin room fits)
termination_by structural phrase

theorem ArgumentPhrases.pathsWithin {tokens : List Token} {es : List Expr}
    (phrases : ArgumentPhrases tokens es) (room : Nat) (fits : phrases.need ≤ room) :
    ∀ e ∈ es, e.PathsWithin room (mostEntered room) := by
  match phrases with
  | .last phrase =>
    exact List.forall_mem_singleton.2 (Phrase.pathsWithin_inside phrase.pathsWithin fits)
  | .more first others =>
    rw [ArgumentPhrases.need] at fits
    obtain ⟨firstFits, othersFit⟩ := Nat.max_le.1 fits
    exact List.forall_mem_cons.2 ⟨Phrase.pathsWithin_inside first.pathsWithin firstFits,
      others.pathsWithin room othersFit⟩
termination_by structural phrases

end

namespace Expr

variable {e : Expr}

theorem pathsWithin_of_ofTokens {tokens : List Token} (accepted : ofTokens tokens = .ok e) :
    e.PathsWithin maxNesting (mostEntered maxNesting) := by
  have justified := justified_ofTokens tokens
  rw [accepted] at justified
  obtain ⟨phrase⟩ := justified
  have fits : phrase.need + 1 ≤ maxNesting := by
    by_contra tooLong
    rw [ofTokens_phrase phrase, if_neg tooLong] at accepted
    cases accepted
  exact Phrase.pathsWithin_inside phrase.pathsWithin fits

theorem pathsWithin_of_accepted {source : String} (accepted : ofFormula source = .ok e) :
    e.PathsWithin maxNesting (mostEntered maxNesting) := by
  obtain ⟨body, tokens, -, accepted⟩ := exists_tokens_of_ofFormula accepted
  exact pathsWithin_of_ofTokens accepted

theorem height_le_of_accepted {source : String} (accepted : ofFormula source = .ok e) :
    e.height ≤ maxNesting + mostEntered maxNesting := by
  obtain ⟨nodes, entered, path, whole⟩ := e.exists_path
  obtain ⟨few, fewEntered⟩ := pathsWithin_of_accepted accepted nodes entered path
  rw [← whole]
  exact Nat.add_le_add few fewEntered

/-! ## Towers

The highest expressions are chains of all four levels, each the first operand of the next, around a call
whose argument is as high as the room that is left allows. -/

/-- The expression and `count` operands after it. -/
def chained (operator : Operator) (e : Expr) : (count : Nat) → Expr
  | 0 => e
  | count + 1 => .binary operator (chained operator e count) (.boolean true)

/-- The highest expression for which there is room in `floors + 1`. -/
def tower : (floors : Nat) → Expr
  | 0 => .boolean true
  | floors + 1 =>
    let base := call "NOT" [tower floors]
    let products := chained .multiply base (floors + 1)
    let sums := chained .add products (floors + 1)
    chained .equal (chained .concat sums (floors + 1)) (floors + 1)

section Chains

variable {operator : Operator} {level count : Nat}

theorem height_chained : (chained operator e count).height = e.height + count := by
  induction count with
  | zero => rfl
  | succ count ih =>
    have positive := e.height_pos
    rw [chained, height, ih, height]
    omega

theorem printable_chained (printable : e.Printable) : (chained operator e count).Printable := by
  induction count with
  | zero => exact printable
  | succ count ih => exact ⟨ih, trivial⟩

theorem chainLength_chained :
    (chained operator e count).chainLength operator.precedence =
      e.chainLength operator.precedence + count := by
  induction count with
  | zero => rfl
  | succ count ih =>
    rw [chained, chainLength, if_pos rfl, ih]
    rfl

/-- A chain of other operators is none of this level. -/
theorem chainLength_chained_succ (other : operator.precedence ≠ level) :
    (chained operator e (count + 1)).chainLength level = 0 := by
  rw [chained, chainLength, if_neg other]

/-- The operators of a chain need as much room as there are of them, unless its first operand needs more. -/
theorem nestingAt_chained (first : e.chainLength operator.precedence = 0) :
    (chained operator e count).nestingAt operator.precedence =
      max (e.nestingAt operator.precedence) count := by
  induction count with
  | zero => exact (Nat.max_zero _).symm
  | succ count ih =>
    simp only [chained, nestingAt, ih, chainLength_chained, first, Nat.lt_irrefl, if_false]
    omega

/-- A chain with as many operators as there is room for around what fills the room as well. -/
theorem nestingAt_chained_succ (first : e.chainLength operator.precedence = 0)
    (weak : level ≤ operator.precedence) (full : e.nestingAt operator.precedence = count + 1) :
    (chained operator e (count + 1)).nestingAt level = count + 1 := by
  have alone : (chained operator e (count + 1)).nestingAt operator.precedence =
      max (e.nestingAt operator.precedence) (count + 1) := nestingAt_chained first
  rw [full, Nat.max_self] at alone
  -- At a weaker level the chain needs no parentheses either.
  refine Eq.trans ?_ alone
  simp only [chained, nestingAt, if_neg (Nat.not_lt.2 weak), Nat.lt_irrefl, if_false]

end Chains

theorem height_tower (floors : Nat) :
    (tower floors).height = floors + 1 + mostEntered (floors + 1) := by
  induction floors with
  | zero => rfl
  | succ floors ih =>
    simp only [tower, height_chained, height, heightOf, Nat.max_zero, ih]
    rw [mostEntered.eq_2 (floors + 1)]
    omega

theorem printable_tower (floors : Nat) : (tower floors).Printable := by
  have isName : IsName "NOT" := ⟨⟨'N', ['O', 'T'], rfl, by decide⟩, List.all_eq_true.1 rfl⟩
  have upper : Text.upper "NOT" = "NOT" := by decide
  induction floors with
  | zero => trivial
  | succ floors ih =>
    exact printable_chained (printable_chained (printable_chained (printable_chained
      ⟨⟨isName, upper⟩, ih, trivial⟩)))

theorem nestingAt_tower (floors : Nat) : (tower floors).nestingAt 1 = floors := by
  induction floors with
  | zero => rfl
  | succ floors ih =>
    have base : (call "NOT" [tower floors]).nestingAt 4 = floors + 1 := by
      simp only [nestingAt, argumentNesting, ih, Nat.max_zero]
    -- Each chain gives the room back to the chain around it.
    refine nestingAt_chained_succ (chainLength_chained_succ (by decide)) (by decide) ?_
    refine nestingAt_chained_succ (chainLength_chained_succ (by decide)) (by decide) ?_
    refine nestingAt_chained_succ (chainLength_chained_succ (by decide)) (by decide) ?_
    exact nestingAt_chained_succ rfl (by decide) base

theorem nesting_tower (floors : Nat) : (tower floors).nesting = floors + 1 := by
  rw [nesting, nestingAt_tower]

theorem ofFormula_tower {floors : Nat} (fits : floors < maxNesting) :
    ofFormula (tower floors).formula = .ok (tower floors) := by
  refine ofFormula_of_room (printable_tower floors) ?_
  rw [nesting_tower]
  exact fits

/-- The greatest height of the expression of an accepted formula. It is not the room for nesting, which
is 256, but twice its square less the room itself, 130816. -/
theorem height_isGreatest : IsGreatest {height | ∃ source e, ofFormula source = .ok e ∧ e.height = height}
    (2 * maxNesting ^ 2 - maxNesting) := by
  have whole : 2 * maxNesting ^ 2 - maxNesting = maxNesting + mostEntered maxNesting := by
    rw [mostEntered_eq]
    rfl
  rw [whole]
  constructor
  · refine ⟨(tower 255).formula, tower 255, ofFormula_tower (Nat.lt_succ_self 255), ?_⟩
    have size : 255 + 1 = maxNesting := rfl
    rw [height_tower, size]
  · rintro _ ⟨source, e, accepted, rfl⟩
    exact height_le_of_accepted accepted

/-- The room for nesting is never exceeded by the nodes of a path besides the operators that it enters
on the left, but by those. The height keeps to the room as long as they do on each path. -/
theorem height_le_iff_of_accepted {source : String} (accepted : ofFormula source = .ok e) :
    e.PathsWithin maxNesting (2 * maxNesting * (maxNesting - 1)) ∧
    (e.height ≤ maxNesting ↔ ∀ nodes entered, e.Path nodes entered → entered ≤ maxNesting - nodes) := by
  have within := pathsWithin_of_accepted accepted
  rw [mostEntered_eq] at within
  refine ⟨within, fun low nodes entered path => ?_, fun keeps => ?_⟩
  · have short := path.le_height
    omega
  · obtain ⟨nodes, entered, path, whole⟩ := e.exists_path
    have few := (within nodes entered path).1
    have fewEntered := keeps nodes entered path
    omega

/-- A tower of eleven floors needs room for twelve, and is too high nevertheless. -/
theorem height_le_iff_of_accepted_tower :
    ofFormula (tower 11).formula = .ok (tower 11) ∧
      ∃ nodes entered, (tower 11).Path nodes entered ∧ maxNesting - nodes < entered := by
  have accepted := ofFormula_tower (show 11 < maxNesting by decide)
  have high : ¬ (tower 11).height ≤ maxNesting := by
    rw [height_tower]
    decide
  rw [(height_le_iff_of_accepted accepted).2] at high
  push Not at high
  exact ⟨accepted, high⟩

end Expr
end PageCalc
