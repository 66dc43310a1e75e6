import PageCalc.Proofs.Evaluation.Atlas

/-!
# The meaning of formulas

The plain meaning of the formulas of an atlas is given by equations between the values of its sites.
A site means a value if this follows from the equations, where some sites are marked as lying on
cycles and only known ones are looked at. Such a value is unique, and where references do not nest
forever every site has one.
-/

namespace PageCalc

variable {π : Type}

/-- The value of an expression when its references have values. -/
def Expr.value (library : Library) (read : Reference → Value) (e : Expr) : Value :=
  (evaluateExpr library (fun r => (pure (read r) : Id Value)) e).run

namespace Atlas

variable {atlas : Atlas π} {s t : Site π} {u v : Value} {domain : Site π → Prop}

/-- The site lies on a cycle of references inside its page. -/
def OnCycle (atlas : Atlas π) (s : Site π) : Prop := (atlas.sheet s.page).OnCycle s.address

/-! ## Equations -/

/-- The values solve the equations of the sites in a domain. -/
structure Solves (atlas : Atlas π) (domain : Site π → Prop) (V : Site π → Value) : Prop where
  literal : ∀ s v, domain s → (atlas.input s).literal? = some v → V s = v
  fault : ∀ s source fault, domain s → atlas.input s = .formula source →
    Expr.ofFormula source = .error fault → V s = .error fault.toCellError
  circular : ∀ s, domain s → atlas.OnCycle s → V s = .error .circular
  formula : ∀ s e, domain s → atlas.expr? s = some e → ¬ atlas.OnCycle s →
    V s = (e.value atlas.library fun r => (atlas.sight s.page r).value V).finish

/-- The value of a site follows from the equations, when the marked sites lie on cycles and only
known formulas are looked at. -/
inductive Means (atlas : Atlas π) (known marked : Site π → Prop) : Site π → Value → Prop where
  | literal {s : Site π} {v : Value} (typed : (atlas.input s).literal? = some v) :
      Means atlas known marked s v
  | fault {s : Site π} {source : String} {fault : FormulaError} (isKnown : known s)
      (typed : atlas.input s = .formula source) (parsed : Expr.ofFormula source = .error fault) :
      Means atlas known marked s (.error fault.toCellError)
  | circular {s : Site π} {e : Expr} (isKnown : known s) (parsed : atlas.expr? s = some e)
      (isMarked : marked s) : Means atlas known marked s (.error .circular)
  | formula {s : Site π} {e : Expr} {x : Value} {cells : Site π → Value → Prop} (isKnown : known s)
      (parsed : atlas.expr? s = some e) (unmarked : ¬ marked s)
      (each : ∀ t u, cells t u → Means atlas known marked t u)
      (yields : (e.plan atlas.library).Yields (fun r u => (atlas.sight s.page r).Gives cells u) x) :
      Means atlas known marked s x.finish

/-! ## Inputs -/

theorem expr?_of_parsed {source : String} {e : Expr} (typed : atlas.input s = .formula source)
    (parsed : Expr.ofFormula source = .ok e) : atlas.expr? s = some e := by
  have typed : (atlas.sheet s.page).input s.address = .formula source := typed
  simp [expr?, Sheet.expr?, typed, parsed, Except.toOption]

theorem exists_of_expr? {e : Expr} (parsed : atlas.expr? s = some e) :
    ∃ source, atlas.input s = .formula source ∧ Expr.ofFormula source = .ok e := Sheet.exists_of_expr? parsed

theorem no_expr?_of_literal (typed : (atlas.input s).literal? = some v) : atlas.expr? s = none := by
  cases parsed : atlas.expr? s with
  | none => rfl
  | some e =>
    obtain ⟨source, isFormula, -⟩ := exists_of_expr? parsed
    rw [isFormula] at typed
    cases typed

theorem input_cases (atlas : Atlas π) (s : Site π) :
    (∃ v, (atlas.input s).literal? = some v) ∨
    (∃ source fault, atlas.input s = .formula source ∧ Expr.ofFormula source = .error fault) ∨
    ∃ e, atlas.expr? s = some e := by
  cases typed : atlas.input s with
  | blank | number _ | text _ => exact .inl ⟨_, rfl⟩
  | formula source =>
    cases parsed : Expr.ofFormula source with
    | error fault => exact .inr (.inl ⟨source, fault, rfl, parsed⟩)
    | ok e => exact .inr (.inr ⟨e, expr?_of_parsed typed parsed⟩)

theorem expr?_of_onCycle (onCycle : atlas.OnCycle s) : ∃ e, atlas.expr? s = some e := by
  obtain ⟨b, reads, -⟩ := Relation.TransGen.head'_iff.1 onCycle
  have reads : atlas.ReadsInside s ⟨s.page, b⟩ := ⟨rfl, reads⟩
  obtain ⟨e, parsed, -⟩ := reads.reads
  exact ⟨e, parsed⟩

/-! ## Uniqueness -/

/-- The domain holds whatever its formulas read. -/
def Closed (atlas : Atlas π) (domain : Site π → Prop) : Prop :=
  ∀ s t, domain s → atlas.Reads s t → domain t

theorem yields_unique {e : Expr} {cells others : Site π → Value → Prop}
    (parsed : atlas.expr? s = some e)
    (yields : (e.plan atlas.library).Yields (fun r u => (atlas.sight s.page r).Gives cells u) u)
    (yieldsToo : (e.plan atlas.library).Yields (fun r u => (atlas.sight s.page r).Gives others u) v)
    (agree : ∀ t, atlas.Reads s t → ∀ u v, cells t u → others t v → u = v) : u = v := by
  refine (yields_within yields).unique yieldsToo ?_
  rintro r u v ⟨member, gives⟩ givesToo
  refine gives.unique givesToo fun t seen => agree t ?_
  exact ⟨e, parsed, r, e.evaluated_subset _ member, seen⟩

section Inversion

variable {known marked : Site π → Prop}

theorem Means.of_literal (typed : (atlas.input s).literal? = some u)
    (means : atlas.Means known marked s v) : v = u := by
  cases means with
  | literal typedToo => exact Option.some.inj (typedToo.symm.trans typed)
  | fault _ typedToo => rw [typedToo] at typed; cases typed
  | circular _ parsed | formula _ parsed =>
    rw [no_expr?_of_literal typed] at parsed
    cases parsed

theorem Means.of_fault {source : String} {fault : FormulaError}
    (typed : atlas.input s = .formula source) (parsed : Expr.ofFormula source = .error fault)
    (means : atlas.Means known marked s v) : v = .error fault.toCellError := by
  cases means with
  | literal typedToo => rw [typed] at typedToo; cases typedToo
  | fault _ typedToo parsedToo =>
    cases typed.symm.trans typedToo
    cases parsed.symm.trans parsedToo
    rfl
  | circular _ parsedToo | formula _ parsedToo =>
    obtain ⟨source, typedToo, isTree⟩ := exists_of_expr? parsedToo
    cases typed.symm.trans typedToo
    cases parsed.symm.trans isTree

/-- A site with a tree means the error of a cycle if it is marked, and what the tree yields if not. -/
theorem Means.of_parsed {e : Expr} (parsed : atlas.expr? s = some e)
    (means : atlas.Means known marked s v) :
    known s ∧ ((marked s ∧ v = .error .circular) ∨ ¬ marked s ∧
      ∃ x, ∃ cells : Site π → Value → Prop, (∀ t u, cells t u → atlas.Means known marked t u) ∧
        (e.plan atlas.library).Yields (fun r u => (atlas.sight s.page r).Gives cells u) x ∧
        v = x.finish) := by
  cases means with
  | literal typed => rw [no_expr?_of_literal typed] at parsed; cases parsed
  | fault _ typed isFault =>
    obtain ⟨source, typedToo, isTree⟩ := exists_of_expr? parsed
    cases typed.symm.trans typedToo
    cases isFault.symm.trans isTree
  | circular isKnown _ isMarked => exact ⟨isKnown, .inl ⟨isMarked, rfl⟩⟩
  | formula isKnown parsedToo unmarked each yields =>
    cases parsed.symm.trans parsedToo
    exact ⟨isKnown, .inr ⟨unmarked, _, _, each, yields, rfl⟩⟩

end Inversion

/-- What a site means does not depend on more than on which known sites are marked. -/
theorem Means.unique {known known' marked marked' : Site π → Prop} (closed : atlas.Closed domain)
    (agree : ∀ s, domain s → known s → known' s → (marked s ↔ marked' s)) (inDomain : domain s)
    (means : atlas.Means known marked s u) (meansToo : atlas.Means known' marked' s v) : u = v := by
  induction means generalizing v with
  | literal typed => exact (meansToo.of_literal typed).symm
  | fault _ typed parsed => exact (meansToo.of_fault typed parsed).symm
  | circular isKnown parsed isMarked =>
    obtain ⟨isKnown', ⟨-, rfl⟩ | ⟨unmarked, -⟩⟩ := meansToo.of_parsed parsed
    · rfl
    · exact absurd ((agree _ inDomain isKnown isKnown').1 isMarked) unmarked
  | formula isKnown parsed unmarked each yields ih =>
    obtain ⟨isKnown', ⟨isMarked, -⟩ | ⟨-, x, cells, eachToo, yieldsToo, rfl⟩⟩ :=
      meansToo.of_parsed parsed
    · exact absurd ((agree _ inDomain isKnown isKnown').2 isMarked) unmarked
    · -- Both read the same sites, whose meanings agree by induction.
      refine congrArg Value.finish (yields_unique parsed yields yieldsToo ?_)
      intro t reads u v cell cellToo
      exact ih t u cell (closed _ t inDomain reads) (eachToo t v cellToo)

/-- A derivation holds on when more becomes known and what is known stays as it is. -/
theorem Means.mono {known known' marked marked' : Site π → Prop} (wider : ∀ s, known s → known' s)
    (same : ∀ s, known s → (marked s ↔ marked' s)) (means : atlas.Means known marked s v) :
    atlas.Means known' marked' s v := by
  induction means with
  | literal typed => exact .literal typed
  | fault isKnown typed parsed => exact .fault (wider _ isKnown) typed parsed
  | circular isKnown parsed isMarked =>
    exact .circular (wider _ isKnown) parsed ((same _ isKnown).1 isMarked)
  | formula isKnown parsed unmarked each yields ih =>
    refine .formula (wider _ isKnown) parsed (fun isMarked => unmarked ((same _ isKnown).2 isMarked))
      ih yields

/-! ## Solutions -/

/-- The sites mean values by the equations alone. -/
abbrev Denotes (atlas : Atlas π) : Site π → Value → Prop :=
  atlas.Means (fun _ => True) atlas.OnCycle

theorem value_yields (atlas : Atlas π) (page : π) (e : Expr) (V : Site π → Value) :
    (e.plan atlas.library).Yields
      (fun r u => (atlas.sight page r).Gives (fun t u => V t = u) u)
      (e.value atlas.library fun r => (atlas.sight page r).value V) := by
  rw [Expr.value, evaluateExpr_eq_run]
  refine (Plan.yields_run _).mono fun r u same => ?_
  rw [← same]
  exact Sight.gives_value V

/-- Every solution gives a site the value that it denotes. -/
theorem Denotes.eq_solution {V : Site π → Value} (closed : atlas.Closed domain)
    (solves : atlas.Solves domain V) (denotes : atlas.Denotes s v) (inDomain : domain s) :
    V s = v := by
  -- Off cycles the values that the formula reads are given by the solution, by induction.
  induction denotes with
  | literal typed => exact solves.literal _ _ inDomain typed
  | fault _ typed parsed => exact solves.fault _ _ _ inDomain typed parsed
  | circular _ _ onCycle => exact solves.circular _ inDomain onCycle
  | formula _ parsed offCycle each yields ih =>
    rw [solves.formula _ _ inDomain parsed offCycle]
    refine congrArg Value.finish (yields_unique parsed (value_yields atlas _ _ V) yields ?_)
    intro t reads u v isU cell
    exact isU.symm.trans (ih t v cell (closed _ t inDomain reads))

theorem denotes_of_reads {V : Site π → Value} {e : Expr} (parsed : atlas.expr? s = some e)
    (offCycle : ¬ atlas.OnCycle s) (each : ∀ t, atlas.Reads s t → atlas.Denotes t (V t)) :
    atlas.Denotes s (e.value atlas.library fun r => (atlas.sight s.page r).value V).finish := by
  -- Only the values of sites that the formula reads matter.
  have yields : (e.plan atlas.library).Yields (fun r u => (atlas.sight s.page r).Gives
      (fun t u => atlas.Reads s t ∧ V t = u) u)
      (e.value atlas.library fun r => (atlas.sight s.page r).value V) := by
    refine (yields_within (value_yields atlas s.page e V)).mono ?_
    rintro r u ⟨member, gives⟩
    exact gives.mono fun t seen u same => ⟨⟨e, parsed, r, e.evaluated_subset _ member, seen⟩, same⟩
  refine .formula trivial parsed offCycle ?_ yields
  rintro t u ⟨reads, rfl⟩
  exact each t reads

theorem solves_of_denotes {V : Site π → Value} (closed : atlas.Closed domain)
    (denotes : ∀ s, domain s → atlas.Denotes s (V s)) : atlas.Solves domain V := by
  have unique {s : Site π} {v : Value} (inDomain : domain s) (means : atlas.Denotes s v) : V s = v :=
    (denotes s inDomain).unique closed (fun _ _ _ _ => Iff.rfl) inDomain means
  refine ⟨fun s v inDomain typed => unique inDomain (.literal typed),
    fun s source fault inDomain typed parsed => unique inDomain (.fault trivial typed parsed),
    fun s inDomain onCycle => ?_, fun s e inDomain parsed offCycle => ?_⟩
  · obtain ⟨e, parsed⟩ := expr?_of_onCycle onCycle
    exact unique inDomain (.circular trivial parsed onCycle)
  · exact unique inDomain (denotes_of_reads parsed offCycle fun t reads =>
      denotes t (closed s t inDomain reads))

end Atlas
end PageCalc
