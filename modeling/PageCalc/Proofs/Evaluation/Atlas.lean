import PageCalc.Evaluation.Workbook
import PageCalc.Page.Site
import PageCalc.Proofs.Evaluation.ValueLaws
import PageCalc.Proofs.Graph.Dependency

/-!
# The graph of references

An atlas says how references to other pages are understood: which page an identifier leads to, and
what the sheet of a page is. Over an atlas the formulas of all pages form one graph, whose edges
lead from the site of a formula to the sites that its references stand for.
-/

namespace PageCalc

variable {π : Type}

/-- The sheets of pages, the pages that references lead to, the meaning of a reference to a whole
page, and the functions that formulas may call. -/
structure Atlas (π : Type) where
  sheet : π → Sheet
  find : PageRef → Except String π
  wholeSheet : WholeSheetPolicy
  library : Library

/-! ## What references stand for -/

/-- What stands where a reference points to. -/
inductive Sight (π : Type) where
  | cell (s : Site π)
  | cells (ss : List (Site π))
  | nothing (message : String)

namespace Sight

/-- The sites that are seen. -/
def sites : Sight π → List (Site π)
  | cell s => [s]
  | cells ss => ss
  | nothing _ => []

/-- The value that is seen when sites have values. -/
def value (read : Site π → Value) : Sight π → Value
  | cell s => (read s).propagated
  | cells ss => .list (ss.map fun s => (read s).propagated)
  | nothing message => .error (.fresh .reference message)

/-- The value is one that may be seen when sites may have values. -/
def Gives (reads : Site π → Value → Prop) : Sight π → Value → Prop
  | cell s, v => ∃ u, reads s u ∧ v = u.propagated
  | cells ss, v => ∃ us, List.Forall₂ reads ss us ∧ v = .list (us.map Value.propagated)
  | nothing message, v => v = .error (.fresh .reference message)

variable {reads others : Site π → Value → Prop} {sight : Sight π} {u v : Value} {s : Site π}

theorem Gives.mono (gives : sight.Gives reads v)
    (weaker : ∀ s ∈ sight.sites, ∀ v, reads s v → others s v) : sight.Gives others v := by
  cases sight with
  | cell s =>
    obtain ⟨u, answered, same⟩ := gives
    exact ⟨u, weaker s (List.mem_singleton.2 rfl) u answered, same⟩
  | cells ss =>
    obtain ⟨us, answered, same⟩ := gives
    exact ⟨us, (List.forall₂_iff_get.1 answered).elim fun length each =>
      List.forall₂_iff_get.2 ⟨length, fun i hi hi' => weaker _ (List.get_mem ..) _ (each i hi hi')⟩,
      same⟩
  | nothing message => exact gives

theorem Gives.unique (gives : sight.Gives reads u) (givesToo : sight.Gives others v)
    (agree : ∀ s ∈ sight.sites, ∀ u v, reads s u → others s v → u = v) : u = v := by
  cases sight with
  | cell s =>
    obtain ⟨u', answered, rfl⟩ := gives
    obtain ⟨v', answeredToo, rfl⟩ := givesToo
    rw [agree s (List.mem_singleton.2 rfl) u' v' answered answeredToo]
  | cells ss =>
    obtain ⟨us, answered, rfl⟩ := gives
    obtain ⟨vs, answeredToo, rfl⟩ := givesToo
    -- The sites of a range are read one after the other, and each read agrees.
    suffices us = vs by rw [this]
    simp only [sites] at agree
    induction answered generalizing vs with
    | nil => cases answeredToo; rfl
    | cons head _ ih =>
      cases answeredToo with
      | cons headToo rest =>
        rw [agree _ List.mem_cons_self _ _ head headToo,
          ih (fun s member => agree s (List.mem_cons_of_mem _ member)) _ rest]
  | nothing message => exact gives.trans givesToo.symm

theorem Gives.exists_reads (gives : sight.Gives reads v) (seen : s ∈ sight.sites) :
    ∃ u, reads s u := by
  cases sight with
  | cell s' =>
    obtain ⟨u, answered, -⟩ := gives
    cases List.mem_singleton.1 seen
    exact ⟨u, answered⟩
  | cells ss =>
    obtain ⟨us, answered, -⟩ := gives
    simp only [sites] at seen
    induction answered with
    | nil => cases seen
    | @cons s' u ss us head _ ih =>
      rcases List.mem_cons.1 seen with rfl | later
      · exact ⟨u, head⟩
      · exact ih later
  | nothing message => cases seen

theorem gives_value (read : Site π → Value) : sight.Gives (fun s v => read s = v) (sight.value read) := by
  cases sight with
  | cell s => exact ⟨read s, rfl, rfl⟩
  | cells ss =>
    refine ⟨ss.map read, ?_, by simp [value]⟩
    exact List.forall₂_map_right_iff.2 (List.forall₂_same.2 fun _ _ => rfl)
  | nothing message => rfl

end Sight

/-- The cells of a sheet that a reference to the whole sheet shows. -/
def WholeSheetPolicy.sight (page : π) (sheet : Sheet) : WholeSheetPolicy → Sight π
  | .grid => .cells (((sheet.extent?.map sheet.cellsIn).getD []).map (⟨page, ·⟩))
  | .cell a => .cell ⟨page, a⟩
  | .reject => .nothing "Whole-sheet reference needs a cell or range"

/-- What a reference shows of the sheet of another page. -/
def PageTarget.sight (policy : WholeSheetPolicy) (page : π) (sheet : Sheet) : PageTarget → Sight π
  | .wholeSheet => policy.sight page sheet
  | .cell a => .cell ⟨page, a⟩
  | .range area => .cells ((sheet.cellsIn area).map (⟨page, ·⟩))

/-- The value of an input that is no formula. -/
def Input.literal? : Input → Option Value
  | .blank => some .blank
  | .number x => some (.number x)
  | .text s => some (.text s)
  | .formula _ => none

/-- Whether a reference stays on the page of the formula. -/
def Reference.isLocal : Reference → Bool
  | .cell _ | .range _ => true
  | .external _ => false

/-- The formulas of the sheet refer to cells of the sheet only. -/
def Sheet.IsLocal (sheet : Sheet) : Prop :=
  ∀ (a : Address) (e : Expr) (r : Reference), sheet.expr? a = some e → r ∈ e.references → r.isLocal

/-- The formulas of the sheet are references to cells of the sheet. -/
theorem Sheet.isLocal_of_references {sheet : Sheet}
    (each : ∀ a e, sheet.expr? a = some e → ∃ r : Reference, r.isLocal ∧ e = .reference r) : sheet.IsLocal := by
  intro a e r parsed member
  obtain ⟨r', isLocal, rfl⟩ := each a e parsed
  cases List.mem_singleton.1 (by simpa [Expr.references] using member)
  exact isLocal

namespace Atlas

variable {atlas : Atlas π} {s t u : Site π} {page : π}

/-- What a reference in a formula of a page shows. -/
def sight (atlas : Atlas π) (page : π) : Reference → Sight π
  | .cell a => .cell ⟨page, a⟩
  | .range area => .cells (((atlas.sheet page).cellsIn area).map (⟨page, ·⟩))
  | .external external =>
    match atlas.find external.page with
    | .ok there => external.target.sight atlas.wholeSheet there (atlas.sheet there)
    | .error message => .nothing message

/-- The sites that a reference in a formula of a page stands for. -/
def targets (atlas : Atlas π) (page : π) (r : Reference) : List (Site π) := (atlas.sight page r).sites

theorem sight_external {external : ExternalReference} {there : π}
    (found : atlas.find external.page = .ok there) : atlas.sight page (.external external) =
      external.target.sight atlas.wholeSheet there (atlas.sheet there) := by
  simp only [sight, found]

theorem sight_missing {external : ExternalReference} {message : String}
    (missing : atlas.find external.page = .error message) :
    atlas.sight page (.external external) = .nothing message := by
  simp only [sight, missing]

theorem targets_of_isLocal {r : Reference} (isLocal : r.isLocal) :
    atlas.targets page r = (r.localCells (atlas.sheet page)).map (⟨page, ·⟩) := by
  cases r with
  | cell _ | range _ => rfl
  | external _ => cases isLocal

/-! ## Edges -/

/-- The input of a site. -/
def input (atlas : Atlas π) (s : Site π) : Input := (atlas.sheet s.page).input s.address

/-- The tree of the formula of a site. -/
def expr? (atlas : Atlas π) (s : Site π) : Option Expr := (atlas.sheet s.page).expr? s.address

/-- The formula of a site refers to another site. -/
def Reads (atlas : Atlas π) (s t : Site π) : Prop :=
  ∃ e ∈ atlas.expr? s, ∃ r ∈ e.references, t ∈ atlas.targets s.page r

/-- A reference to another page, or to its own page by its identifier. -/
def ReadsAcross (atlas : Atlas π) (s t : Site π) : Prop :=
  ∃ e ∈ atlas.expr? s, ∃ r ∈ e.references, r.isLocal = false ∧ t ∈ atlas.targets s.page r

/-- The formula of a site refers to another site of its page. -/
def ReadsInside (atlas : Atlas π) (s t : Site π) : Prop :=
  t.page = s.page ∧ (atlas.sheet s.page).Reads s.address t.address

/-- The formula of a site refers to another site outside of refused calls. -/
def Demands (atlas : Atlas π) (s t : Site π) : Prop :=
  ∃ e ∈ atlas.expr? s, ∃ r ∈ e.evaluated atlas.library, t ∈ atlas.targets s.page r

def DemandsAcross (atlas : Atlas π) (s t : Site π) : Prop :=
  ∃ e ∈ atlas.expr? s, ∃ r ∈ e.evaluated atlas.library,
    r.isLocal = false ∧ t ∈ atlas.targets s.page r

/-- The site depends on the other one by way of at least one read. -/
abbrev DependsOn (atlas : Atlas π) : Site π → Site π → Prop := Relation.TransGen atlas.Reads

/-- The site is the other one or depends on it. -/
abbrev Reaches (atlas : Atlas π) : Site π → Site π → Prop := Relation.ReflTransGen atlas.Reads

theorem ReadsAcross.reads (across : atlas.ReadsAcross s t) : atlas.Reads s t := by
  obtain ⟨e, parsed, r, member, -, target⟩ := across
  exact ⟨e, parsed, r, member, target⟩

theorem ReadsInside.exists_reference (inside : atlas.ReadsInside s t) :
    ∃ e ∈ atlas.expr? s, ∃ r ∈ e.references, r.isLocal ∧ t ∈ atlas.targets s.page r := by
  obtain ⟨samePage, r, member, inside⟩ := inside
  obtain ⟨source, e, typed, parsed, member⟩ := Sheet.exists_of_mem_references member
  have isLocal : r.isLocal := by
    cases r with
    | cell _ | range _ => rfl
    | external _ => simp [Reference.localCells] at inside
  refine ⟨e, by simp [expr?, Sheet.expr?, typed, parsed, Except.toOption], r, member, isLocal, ?_⟩
  rw [targets_of_isLocal isLocal]
  exact List.mem_map.2 ⟨t.address, inside, by rw [← samePage]⟩

theorem ReadsInside.reads (inside : atlas.ReadsInside s t) : atlas.Reads s t := by
  obtain ⟨e, parsed, r, member, -, target⟩ := inside.exists_reference
  exact ⟨e, parsed, r, member, target⟩

theorem Demands.reads (demands : atlas.Demands s t) : atlas.Reads s t := by
  obtain ⟨e, parsed, r, member, target⟩ := demands
  exact ⟨e, parsed, r, e.evaluated_subset _ member, target⟩

theorem DemandsAcross.demands (across : atlas.DemandsAcross s t) : atlas.Demands s t := by
  obtain ⟨e, parsed, r, member, -, target⟩ := across
  exact ⟨e, parsed, r, member, target⟩

theorem readsInside_of_isLocal {e : Expr} {r : Reference} (parsed : atlas.expr? s = some e)
    (member : r ∈ e.references) (isLocal : r.isLocal) (target : t ∈ atlas.targets s.page r) :
    atlas.ReadsInside s t := by
  rw [targets_of_isLocal isLocal] at target
  obtain ⟨b, inside, rfl⟩ := List.mem_map.1 target
  refine ⟨rfl, r, ?_, inside⟩
  have parsed : (atlas.sheet s.page).expr? s.address = some e := parsed
  simpa [Sheet.references, parsed] using member

theorem Reads.inside_or_across (reads : atlas.Reads s t) :
    atlas.ReadsInside s t ∨ atlas.ReadsAcross s t := by
  obtain ⟨e, parsed, r, member, target⟩ := reads
  cases isLocal : r.isLocal with
  | true => exact .inl (readsInside_of_isLocal parsed member isLocal target)
  | false => exact .inr ⟨e, parsed, r, member, isLocal, target⟩

theorem Demands.inside_or_across (demands : atlas.Demands s t) :
    atlas.ReadsInside s t ∨ atlas.DemandsAcross s t := by
  obtain ⟨e, parsed, r, member, target⟩ := demands
  cases isLocal : r.isLocal with
  | true =>
    exact .inl (readsInside_of_isLocal parsed (e.evaluated_subset _ member) isLocal target)
  | false => exact .inr ⟨e, parsed, r, member, isLocal, target⟩

/-! ## Paths -/

theorem reaches_inside {a b : Address}
    (path : Relation.ReflTransGen (atlas.sheet page).Reads a b) : atlas.Reaches ⟨page, a⟩ ⟨page, b⟩ :=
  path.lift (fun c => (⟨page, c⟩ : Site π)) fun _ _ reads => ReadsInside.reads ⟨rfl, reads⟩

theorem dependsOn_inside {a b : Address} (path : Relation.TransGen (atlas.sheet page).Reads a b) :
    atlas.DependsOn ⟨page, a⟩ ⟨page, b⟩ :=
  path.lift (fun c => (⟨page, c⟩ : Site π)) fun _ _ reads => ReadsInside.reads ⟨rfl, reads⟩

/-- A dependency stays inside a sheet, or some read on the way goes across. -/
theorem DependsOn.inside_or_across (path : atlas.DependsOn s t) :
    (t.page = s.page ∧ Relation.TransGen (atlas.sheet s.page).Reads s.address t.address) ∨
      ∃ u v, atlas.Reaches s u ∧ atlas.ReadsAcross u v ∧ atlas.Reaches v t := by
  induction path with
  | @single t reads =>
    exact reads.inside_or_across.imp (fun inside => ⟨inside.1, .single inside.2⟩)
      fun across => ⟨s, t, .refl, across, .refl⟩
  | @tail t t' path reads ih =>
    -- Once a read has gone across, any read may follow.
    rcases ih with ⟨samePage, inside⟩ | ⟨u, v, before, across, after⟩
    · rcases reads.inside_or_across with ⟨stays, step⟩ | across
      · rw [samePage] at step stays
        exact .inl ⟨stays, inside.tail step⟩
      · exact .inr ⟨t, t', path.to_reflTransGen, across, .refl⟩
    · exact .inr ⟨u, v, before, across, after.tail reads⟩

end Atlas
end PageCalc
