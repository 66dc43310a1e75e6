import PageCalc.Evaluation.Progress
import PageCalc.Proofs.Evaluation.Atlas

/-!
# What is known stays known

Pages, resolutions and values that an evaluation knows stay as they are: what a formula saw once, it
would see again at any later time.
-/

namespace PageCalc

open Collection

namespace Progress

variable {w : Workbook} {p p' p'' : Progress} {key : CellKey} {place : Nat} {r : Reference}

/-- Whether a cell holds a formula. -/
def IsFormula (p : Progress) (key : CellKey) : Prop := (p.sheet key.page).isFormula key.address

/-- The atlas of the pages loaded so far. -/
def atlas (p : Progress) (w : Workbook) : Atlas Nat where
  sheet := p.sheet
  find page :=
    if page.identifier = w.pageId then .ok root
    else match p.resolutions[page.identifier]? with
      | some outcome => outcome.mapError ResolveError.message
      | none => .error ""
  wholeSheet := w.options.wholeSheet
  library := w.library

/-- Whether it is known what a reference leads to. -/
def Resolved (w : Workbook) (p : Progress) : Reference → Prop
  | .cell _ | .range _ => True
  | .external external =>
    external.page.identifier = w.pageId ∨ external.page.identifier ∈ p.resolutions

@[simp]
theorem atlas_sheet : (p.atlas w).sheet = p.sheet := rfl

@[simp]
theorem isPending_iff : p.isPending key ↔ p.IsFormula key ∧ key ∉ p.memo ∧ key ∉ p.stack := by
  have unknown_iff : p.memo.contains key = false ↔ key ∉ p.memo := by
    rw [← Bool.not_eq_true, Std.ExtTreeMap.contains_iff_mem]
  simp [isPending, IsFormula, and_assoc, unknown_iff]

theorem sheet_of_page {page : LoadedPage} (loaded : p.pages[place]? = some page) :
    p.sheet place = page.sheet := by
  simp [sheet, loaded]

theorem isFormula_empty (a : Address) : Sheet.empty.isFormula a = false := by
  simp [Sheet.isFormula, Sheet.input, Sheet.get, Sheet.empty, Sheet.withSize, Input.ofText,
    Input.isFormula]

theorem IsFormula.loaded (formula : p.IsFormula key) : key.page < p.pages.size := by
  by_contra unloaded
  have none : p.pages[key.page]? = none := Array.getElem?_eq_none (Nat.le_of_not_lt unloaded)
  simp [IsFormula, sheet, none, isFormula_empty] at formula

theorem literal?_of_isFormula (formula : p.IsFormula key) : (p.input key).literal? = none := by
  obtain ⟨source, typed⟩ := Sheet.isFormula_iff.1 formula
  exact congrArg Input.literal? typed

theorem isFormula_of_expr? {e : Expr} (parsed : (p.atlas w).expr? key = some e) :
    p.IsFormula key := Sheet.isFormula_of_expr? parsed

theorem isFormula_of_reads {t : CellKey} (reads : (p.atlas w).Reads key t) : p.IsFormula key := by
  obtain ⟨e, parsed, -⟩ := reads
  exact isFormula_of_expr? parsed

/-- Later states know what earlier ones know. -/
structure Grows (p p' : Progress) : Prop where
  size : p.pages.size ≤ p'.pages.size
  pages : ∀ place < p.pages.size, p'.pages[place]? = p.pages[place]?
  resolutions : ∀ (i : String) (outcome : Except ResolveError Nat),
    p.resolutions[i]? = some outcome → p'.resolutions[i]? = some outcome
  memo : ∀ (key : CellKey) (v : Value), p.memo[key]? = some v → p'.memo[key]? = some v
  waiting : ∀ key ∈ p.stack, key ∈ p'.stack ∨ key ∈ p'.memo
  marked : ∀ key ∈ p.circular, key ∈ p'.circular ∨ key ∈ p'.memo

/-- The pages that references lead to are loaded. -/
structure Placed (w : Workbook) (p : Progress) : Prop where
  root : ∃ page, p.pages[Progress.root]? = some page ∧ page.id = w.pageId ∧ page.sheet = w.sheet
  resolved : ∀ (i : String) (place : Nat), p.resolutions[i]? = some (.ok place) →
    place < p.pages.size

theorem Placed.find {page : PageRef} (placed : p.Placed w)
    (found : (p.atlas w).find page = .ok place) : place < p.pages.size := by
  unfold atlas at found
  dsimp only at found
  split at found
  · cases found
    obtain ⟨page, loaded, -⟩ := placed.root
    exact (Array.getElem?_eq_some_iff.1 loaded).1
  · split at found
    · next outcome known =>
      cases outcome with
      | error failure => cases found
      | ok other =>
        cases found
        exact placed.resolved _ _ known
    · cases found

namespace Grows

theorem of_same (pages : p'.pages = p.pages) (resolutions : p'.resolutions = p.resolutions)
    (memo : p'.memo = p.memo) (stack : p.stack ⊆ p'.stack)
    (marked : ∀ key ∈ p.circular, key ∈ p'.circular) : p.Grows p' where
  size := Nat.le_of_eq (congrArg Array.size pages.symm)
  pages place _ := by rw [pages]
  resolutions i outcome known := resolutions ▸ known
  memo key v known := memo ▸ known
  waiting key entered := .inl (stack entered)
  marked key isMarked := .inl (marked key isMarked)

theorem refl (p : Progress) : p.Grows p :=
  .of_same rfl rfl rfl (List.Subset.refl _) fun _ => id

theorem mem_memo (grows : p.Grows p') (known : key ∈ p.memo) : key ∈ p'.memo := by
  obtain ⟨v, known⟩ := mem_iff_exists.1 known
  exact mem_of_known (grows.memo key v known)

theorem trans (first : p.Grows p') (second : p'.Grows p'') : p.Grows p'' where
  size := Nat.le_trans first.size second.size
  pages place loaded :=
    (second.pages place (Nat.lt_of_lt_of_le loaded first.size)).trans (first.pages place loaded)
  resolutions i outcome known := second.resolutions i outcome (first.resolutions i outcome known)
  memo key v known := second.memo key v (first.memo key v known)
  waiting key entered := (first.waiting key entered).elim (second.waiting key)
    fun finished => .inr (second.mem_memo finished)
  marked key onCycle := (first.marked key onCycle).elim (second.marked key)
    fun finished => .inr (second.mem_memo finished)

theorem sheet (grows : p.Grows p') (loaded : place < p.pages.size) : p'.sheet place = p.sheet place := by
  simp only [Progress.sheet, grows.pages place loaded]

theorem input (grows : p.Grows p') (loaded : key.page < p.pages.size) : p'.input key = p.input key := by
  rw [Progress.input, Progress.input, grows.sheet loaded]

theorem isFormula (grows : p.Grows p') (formula : p.IsFormula key) : p'.IsFormula key := by
  unfold IsFormula
  rw [grows.sheet formula.loaded]
  exact formula

theorem isFormula_iff (grows : p.Grows p') (loaded : key.page < p.pages.size) :
    p'.IsFormula key ↔ p.IsFormula key := by
  unfold IsFormula
  rw [grows.sheet loaded]

theorem not_isPending (grows : p.Grows p') (loaded : key.page < p.pages.size)
    (settled : ¬ p.isPending key) : ¬ p'.isPending key := by
  rw [isPending_iff] at *
  rintro ⟨formula, unknown, outside⟩
  refine settled ⟨(grows.isFormula_iff loaded).1 formula, fun known => ?_, fun entered => ?_⟩
  · exact unknown (grows.mem_memo known)
  -- A formula that is not under evaluation any more has been finished.
  · exact (grows.waiting key entered).elim outside unknown

theorem resolved (grows : p.Grows p') (resolved : p.Resolved w r) : p'.Resolved w r := by
  cases r with
  | cell _ | range _ => exact resolved
  | external external =>
    refine resolved.imp_right fun known => ?_
    obtain ⟨outcome, known⟩ := mem_iff_exists.1 known
    exact mem_of_known (grows.resolutions _ outcome known)

theorem find {page : PageRef} (grows : p.Grows p')
    (known : page.identifier = w.pageId ∨ page.identifier ∈ p.resolutions) :
    (p'.atlas w).find page = (p.atlas w).find page := by
  unfold atlas
  dsimp only
  split
  · rfl
  · next other =>
    have known := known.resolve_left other
    obtain ⟨outcome, known⟩ := mem_iff_exists.1 known
    rw [grows.resolutions _ outcome known, known]

theorem sight (grows : p.Grows p') (placed : p.Placed w) (loaded : place < p.pages.size)
    (resolved : p.Resolved w r) : (p'.atlas w).sight place r = (p.atlas w).sight place r := by
  cases r with
  | cell a => rfl
  | range area => simp only [Atlas.sight, atlas_sheet, grows.sheet loaded]
  | external external =>
    simp only [Atlas.sight, grows.find resolved]
    cases found : (p.atlas w).find external.page with
    | error message => rfl
    | ok there =>
      have same := grows.sheet (placed.find found)
      simp only [atlas_sheet, same]
      rfl

theorem expr? (grows : p.Grows p') (loaded : key.page < p.pages.size) :
    (p'.atlas w).expr? key = (p.atlas w).expr? key := by
  simp only [Atlas.expr?, atlas_sheet, grows.sheet loaded]

end Grows

theorem resolved_of_target {t : CellKey} (target : t ∈ (p.atlas w).targets place r) :
    p.Resolved w r := by
  cases r with
  | cell _ | range _ => trivial
  | external external =>
    -- A page that was not asked for shows nothing, so it has no sites.
    by_contra unresolved
    obtain ⟨other, unknown⟩ := not_or.1 unresolved
    rw [Std.ExtTreeMap.mem_iff_isSome_getElem?, Option.not_isSome_iff_eq_none] at unknown
    simp [Atlas.targets, Atlas.sight, atlas, other, unknown, Sight.sites] at target

namespace Grows

variable {t : CellKey}

theorem target (grows : p.Grows p') (placed : p.Placed w) (loaded : place < p.pages.size)
    (target : t ∈ (p.atlas w).targets place r) : t ∈ (p'.atlas w).targets place r := by
  unfold Atlas.targets
  rw [grows.sight placed loaded (resolved_of_target target)]
  exact target

theorem reads (grows : p.Grows p') (placed : p.Placed w) (reads : (p.atlas w).Reads key t) :
    (p'.atlas w).Reads key t := by
  have loaded := (isFormula_of_reads reads).loaded
  obtain ⟨e, parsed, r, member, target⟩ := reads
  exact ⟨e, (grows.expr? loaded).trans parsed, r, member, grows.target placed loaded target⟩

theorem dependsOn (grows : p.Grows p') (placed : p.Placed w)
    (path : (p.atlas w).DependsOn key t) : (p'.atlas w).DependsOn key t :=
  Relation.TransGen.mono (fun _ _ => grows.reads placed) _ _ path

theorem demands (grows : p.Grows p') (placed : p.Placed w) (demands : (p.atlas w).Demands key t) :
    (p'.atlas w).Demands key t := by
  have loaded := (isFormula_of_reads demands.reads).loaded
  obtain ⟨e, parsed, r, member, target⟩ := demands
  exact ⟨e, (grows.expr? loaded).trans parsed, r, member, grows.target placed loaded target⟩

theorem demandsAcross (grows : p.Grows p') (placed : p.Placed w)
    (across : (p.atlas w).DemandsAcross key t) : (p'.atlas w).DemandsAcross key t := by
  have loaded := (isFormula_of_reads across.demands.reads).loaded
  obtain ⟨e, parsed, r, member, external, target⟩ := across
  exact ⟨e, (grows.expr? loaded).trans parsed, r, member, external,
    grows.target placed loaded target⟩

end Grows

end Progress
end PageCalc
