import PageCalc.Evaluation.Result
import PageCalc.Proofs.Evaluation.Monotonicity

/-!
# Loading pages

A page is loaded with its dependencies, and the cells on cycles inside it are finished at once.
Whatever comes of a reference to a page, the pages that were there before stay as they are.
-/

namespace PageCalc.Progress

open Collection

variable {w : Workbook} {p : Progress} {key : CellKey} {place : Nat} {id : String} {sheet : Sheet}

/-! ## One page -/

theorem load_pages : (p.load id sheet).2.pages =
    p.pages.push ⟨id, sheet, (Dependencies.ofSheet sheet p.cache).1⟩ := rfl

theorem load_sheet : (p.load id sheet).2.sheet place =
    if place = p.pages.size then sheet else p.sheet place := by
  unfold Progress.sheet
  rw [load_pages, Array.getElem?_push]
  split
  · rfl
  · rfl

theorem mem_members_load {a : Address} :
    a ∈ (Dependencies.ofSheet sheet p.cache).1.cycles.members.toList ↔ sheet.OnCycle a := by
  rw [Std.ExtTreeSet.mem_toList, Dependencies.mem_cycles_ofSheet]

theorem load_memo_of_onCycle {a : Address} (onCycle : sheet.OnCycle a) :
    (p.load id sheet).2.memo[(⟨p.pages.size, a⟩ : CellKey)]? = some (.error .circular) := by
  unfold load
  refine Std.ExtTreeMap.getElem?_insertMany_list_of_mem (k := ⟨p.pages.size, a⟩) ?_ ?_ ?_
  · exact Std.LawfulEqCmp.compare_eq_iff_eq.2 rfl
  -- No cell is inserted twice, so the order of insertion does not matter.
  · rw [List.pairwise_map]
    refine Std.ExtTreeSet.distinct_toList.imp fun distinct same => distinct ?_
    rw [Std.LawfulEqCmp.compare_eq_iff_eq] at *
    exact congrArg Site.address same
  · exact List.mem_map.2 ⟨a, mem_members_load.2 onCycle, rfl⟩

theorem load_memo_of_not
    (other : ¬ (key.page = p.pages.size ∧ sheet.OnCycle key.address)) :
    (p.load id sheet).2.memo[key]? = p.memo[key]? := by
  unfold load
  refine Std.ExtTreeMap.getElem?_insertMany_list_of_contains_eq_false ?_
  rw [← Bool.not_eq_true, List.contains_iff_mem, List.map_map]
  intro member
  obtain ⟨a, onCycle, rfl⟩ := List.mem_map.1 member
  exact other ⟨rfl, mem_members_load.1 onCycle⟩

theorem memo_of_load {v : Value} (known : (p.load id sheet).2.memo[key]? = some v) :
    p.memo[key]? = some v ∨
      v = .error .circular ∧ ((p.load id sheet).2.sheet key.page).OnCycle key.address := by
  by_cases onNewPage : key.page = p.pages.size ∧ sheet.OnCycle key.address
  · obtain ⟨page, a⟩ := key
    obtain ⟨rfl, onCycle⟩ := onNewPage
    rw [load_memo_of_onCycle onCycle, Option.some.injEq] at known
    exact .inr ⟨known.symm, by rw [load_sheet, if_pos rfl]; exact onCycle⟩
  · exact .inl ((load_memo_of_not onNewPage).symm.trans known)

/-- At the beginning of an evaluation only the cells on cycles of the root page are known. -/
theorem memo_of_begin {cache : ParseCache} {v : Value} (known : (w.begin cache).memo[key]? = some v) :
    v = .error .circular ∧ ((w.begin cache).sheet key.page).OnCycle key.address :=
  (memo_of_load known).resolve_left fun before => by simp [start] at before

theorem load_grows (finished : ∀ key ∈ p.memo, p.IsFormula key) : p.Grows (p.load id sheet).2 where
  size := by rw [load_pages, Array.size_push]; exact Nat.le_succ _
  pages place loaded := by rw [load_pages, Array.getElem?_push_lt loaded, Array.getElem?_eq_getElem]
  resolutions _ _ known := known
  memo key v known := by
    -- What was finished before stands on pages that were loaded before.
    refine (load_memo_of_not fun onNewPage => ?_).trans known
    have := (finished key (mem_of_known known)).loaded
    omega
  waiting _ := .inl
  marked _ := .inl

/-- What holds of the pages loaded so far and of the values of their cells. -/
structure Kept (p : Progress) : Prop where
  gathered : ∀ page ∈ p.pages, ∃ cache,
    page.dependencies = (Dependencies.ofSheet page.sheet cache).1
  finished : ∀ key ∈ p.memo, p.IsFormula key
  premarked : ∀ place a, (p.sheet place).OnCycle a →
    p.memo[(⟨place, a⟩ : CellKey)]? = some (.error .circular)
  ids : ∀ (i j : Nat) (page other : LoadedPage), p.pages[i]? = some page → p.pages[j]? = some other →
    page.id = other.id → i = j

theorem isFormula_of_onCycle {a : Address} (onCycle : sheet.OnCycle a) : sheet.isFormula a := by
  obtain ⟨b, reads, -⟩ := Relation.TransGen.head'_iff.1 onCycle
  exact reads.isFormula

/-- It holds of all states with the same pages and values. -/
theorem Kept.of_same {p' : Progress} (kept : p.Kept) (pages : p'.pages = p.pages) (memo : p'.memo = p.memo) :
    p'.Kept := by
  have sheets (place : Nat) : p'.sheet place = p.sheet place := by rw [Progress.sheet, pages, Progress.sheet]
  refine ⟨pages ▸ kept.gathered, fun key member => ?_, fun place a onCycle => ?_, pages ▸ kept.ids⟩
  · rw [IsFormula, sheets]
    exact kept.finished key (memo ▸ member)
  · rw [memo]
    exact kept.premarked place a (sheets place ▸ onCycle)

theorem start_kept (cache : ParseCache) : (start cache).Kept where
  gathered page member := by simp [start] at member
  finished key member := by simp [start] at member
  premarked place a onCycle := by
    have : (start cache).sheet place = .empty := rfl
    have formula := isFormula_of_onCycle onCycle
    rw [this, isFormula_empty] at formula
    cases formula
  ids i j page other loaded := by simp [start] at loaded

theorem Kept.load (kept : p.Kept) (new : ∀ page ∈ p.pages, page.id ≠ id) :
    (p.load id sheet).2.Kept where
  gathered page member := by
    rw [load_pages, Array.mem_push] at member
    rcases member with known | rfl
    · exact kept.gathered page known
    · exact ⟨p.cache, rfl⟩
  finished key member := by
    rw [Std.ExtTreeMap.mem_iff_isSome_getElem?] at member
    by_cases onNewPage : key.page = p.pages.size ∧ sheet.OnCycle key.address
    · rw [IsFormula, load_sheet, if_pos onNewPage.1]
      exact isFormula_of_onCycle onNewPage.2
    · rw [load_memo_of_not onNewPage, ← Std.ExtTreeMap.mem_iff_isSome_getElem?] at member
      exact (load_grows kept.finished).isFormula (kept.finished key member)
  -- The cells on cycles of the new page are inserted, those of the other pages were kept.
  premarked place a onCycle := by
    rw [load_sheet] at onCycle
    split at onCycle
    · next onNewPage => rw [onNewPage]; exact load_memo_of_onCycle onCycle
    · next onOldPage =>
      rw [load_memo_of_not fun onNewPage => onOldPage onNewPage.1]
      exact kept.premarked place a onCycle
  ids i j page other loaded loadedToo same := by
    rw [load_pages, Array.getElem?_push] at loaded loadedToo
    -- Either both pages are the new one, or one is and has an identifier of its own, or neither is.
    split at loaded <;> split at loadedToo
    · omega
    · cases loaded
      exact absurd same.symm (new other (Array.mem_of_getElem? loadedToo))
    · cases loadedToo
      exact absurd same (new page (Array.mem_of_getElem? loaded))
    · exact kept.ids i j page other loaded loadedToo same

theorem begin_kept (w : Workbook) (cache : ParseCache) : (w.begin cache).Kept :=
  (start_kept cache).load fun page member => by simp [start] at member

/-! ## The page of a reference -/

/-- What may come of a reference to another page whose identifier was not asked for before. -/
inductive Fetched (w : Workbook) (p : Progress) (page : PageRef) :
    Except ResolveError Nat → Progress → Prop where
  | missing {failure : ResolveError} (answer : w.resolver page = .error failure) :
      Fetched w p page (.error failure) { p with calls := page :: p.calls }
  | known {answer : ResolvedPage} {place : Nat} (given : w.resolver page = .ok answer)
      (found : p.pages.findIdx? (·.id = answer.id) = some place) :
      Fetched w p page (.ok place) { p with calls := page :: p.calls }
  | loaded {answer : ResolvedPage} (given : w.resolver page = .ok answer)
      (new : p.pages.findIdx? (·.id = answer.id) = none) :
      Fetched w p page (.ok p.pages.size)
        ({ p with calls := page :: p.calls }.load answer.id answer.sheet).2

/-- The outcome for an identifier is kept. -/
def settleReference (p : Progress) (page : PageRef) (outcome : Except ResolveError Nat) : Progress :=
  { p with resolutions := p.resolutions.insert page.identifier outcome }

/-- A reference leads to the root, to where its identifier led before, or to what is fetched. -/
@[elab_as_elim]
theorem resolve_cases (p : Progress) (w : Workbook) (page : PageRef)
    {motive : Except ResolveError Nat × Progress → Prop}
    (own : page.identifier = w.pageId → motive (.ok root, p))
    (known : ∀ outcome, page.identifier ≠ w.pageId →
      p.resolutions[page.identifier]? = some outcome → motive (outcome, p))
    (fetched : ∀ outcome p', page.identifier ≠ w.pageId →
      p.resolutions[page.identifier]? = none → Fetched w p page outcome p' →
      motive (outcome, p'.settleReference page outcome)) : motive (p.resolve w page) := by
  unfold resolve
  split
  · next isOwn => exact own isOwn
  · next other =>
    split
    · next outcome isKnown => exact known outcome other isKnown
    · next unknown =>
      unfold fetch accept
      cases given : w.resolver page with
      | error failure => exact fetched _ _ other unknown (.missing given)
      | ok answer =>
        cases found : p.pages.findIdx? (·.id = answer.id) with
        | some place =>
          simp only [found]
          exact fetched _ _ other unknown (.known given found)
        | none =>
          simp only [found]
          exact fetched _ _ other unknown (.loaded given found)

/-! ## Growth -/

variable {page : PageRef} {outcome : Except ResolveError Nat} {p' : Progress}

theorem Fetched.grows (fetched : Fetched w p page outcome p') (kept : p.Kept) : p.Grows p' := by
  have sameButCalls : p.Grows { p with calls := page :: p.calls } :=
    .of_same rfl rfl rfl (List.Subset.refl _) fun _ => id
  cases fetched with
  | missing | known => exact sameButCalls
  | loaded => exact sameButCalls.trans (load_grows kept.finished)

theorem Fetched.same (fetched : Fetched w p page outcome p') :
    p'.resolutions = p.resolutions ∧ p'.stack = p.stack ∧ p'.circular = p.circular := by
  cases fetched <;> exact ⟨rfl, rfl, rfl⟩

theorem settleReference_grows (unknown : p.resolutions[page.identifier]? = none) :
    p.Grows (p.settleReference page outcome) where
  size := Nat.le_refl _
  pages _ _ := rfl
  resolutions i known isKnown := by
    rw [settleReference, Std.ExtTreeMap.getElem?_insert]
    split
    · next same =>
      rw [Std.LawfulEqCmp.compare_eq_iff_eq] at same
      rw [same, isKnown] at unknown
      cases unknown
    · exact isKnown
  memo _ _ known := known
  waiting _ := .inl
  marked _ := .inl

theorem resolve_grows (kept : p.Kept) : p.Grows (p.resolve w page).2 := by
  refine resolve_cases p w page ?own ?known ?fetched
  case own => exact fun _ => .refl p
  case known => exact fun _ _ _ => .refl p
  case fetched =>
    intro outcome p' _ unknown fetched
    refine (fetched.grows kept).trans (settleReference_grows ?_)
    rw [fetched.same.1, unknown]

theorem resolve_stack : (p.resolve w page).2.stack = p.stack := by
  refine resolve_cases p w page ?own ?known ?fetched
  case own => exact fun _ => rfl
  case known => exact fun _ _ _ => rfl
  case fetched => exact fun _ _ _ _ fetched => fetched.same.2.1

theorem resolve_circular : (p.resolve w page).2.circular = p.circular := by
  refine resolve_cases p w page ?own ?known ?fetched
  case own => exact fun _ => rfl
  case known => exact fun _ _ _ => rfl
  case fetched => exact fun _ _ _ _ fetched => fetched.same.2.2

theorem Fetched.memo (fetched : Fetched w p page outcome p') (loaded : key.page < p.pages.size) :
    p'.memo[key]? = p.memo[key]? := by
  cases fetched with
  | missing | known => rfl
  | loaded => exact load_memo_of_not fun onNewPage => Nat.ne_of_lt loaded onNewPage.1

theorem resolve_memo (loaded : key.page < p.pages.size) :
    (p.resolve w page).2.memo[key]? = p.memo[key]? := by
  refine resolve_cases p w page ?own ?known ?fetched
  case own => exact fun _ => rfl
  case known => exact fun _ _ _ => rfl
  case fetched => exact fun _ _ _ _ fetched => fetched.memo loaded

/-- A value that is new after a reference is resolved is that of a cell on a cycle of its page. -/
theorem memo_of_resolve {v : Value} (known : (p.resolve w page).2.memo[key]? = some v) :
    p.memo[key]? = some v ∨
      v = .error .circular ∧ ((p.resolve w page).2.sheet key.page).OnCycle key.address := by
  revert known
  refine resolve_cases p w page ?own ?known ?fetched
  case own => exact fun _ => .inl
  case known => exact fun _ _ _ => .inl
  case fetched =>
    intro outcome p' _ _ fetched known
    cases fetched with
    | missing | known => exact .inl known
    | loaded => exact memo_of_load known

/-! ## Invariants -/

theorem Fetched.kept (fetched : Fetched w p page outcome p') (kept : p.Kept) : p'.Kept := by
  have sameButCalls : { p with calls := page :: p.calls }.Kept := kept.of_same rfl rfl
  cases fetched with
  | missing | known => exact sameButCalls
  | loaded given new =>
    refine sameButCalls.load fun page member same => ?_
    have distinct := Array.findIdx?_eq_none_iff.1 new page member
    simp [same] at distinct

theorem Fetched.place_lt {place : Nat} (fetched : Fetched w p page (.ok place) p') :
    place < p'.pages.size := by
  cases fetched with
  | known given found => exact (Array.findIdx?_eq_some_iff_getElem.1 found).1
  | loaded => rw [load_pages, Array.size_push]; exact Nat.lt_succ_self _

theorem resolve_kept (kept : p.Kept) : (p.resolve w page).2.Kept := by
  refine resolve_cases p w page ?own ?known ?fetched
  case own => exact fun _ => kept
  case known => exact fun _ _ _ => kept
  case fetched =>
    intro outcome p' _ _ fetched
    exact (fetched.kept kept).of_same rfl rfl

theorem resolve_placed (kept : p.Kept) (placed : p.Placed w) : (p.resolve w page).2.Placed w := by
  have grows : p.Grows (p.resolve w page).2 := resolve_grows kept
  have rootLoaded : ∃ page', (p.resolve w page).2.pages[root]? = some page' ∧
      page'.id = w.pageId ∧ page'.sheet = w.sheet := by
    obtain ⟨page', loaded, isRoot⟩ := placed.root
    exact ⟨page', (grows.pages root (Array.getElem?_eq_some_iff.1 loaded).1).trans loaded, isRoot⟩
  refine ⟨rootLoaded, fun i place known => ?_⟩
  -- Only what was fetched leads to a place that was not there before.
  revert known
  refine resolve_cases p w page ?own ?known ?fetched
  case own => exact fun _ => placed.resolved i place
  case known => exact fun _ _ _ => placed.resolved i place
  case fetched =>
    intro outcome p' _ _ fetched known
    rw [settleReference, Std.ExtTreeMap.getElem?_insert] at known
    split at known
    · cases known
      exact fetched.place_lt
    · rw [fetched.same.1] at known
      exact Nat.lt_of_lt_of_le (placed.resolved i place known) (fetched.grows kept).size

theorem resolve_find : (((p.resolve w page).2).atlas w).find page =
    (p.resolve w page).1.mapError ResolveError.message := by
  refine resolve_cases p w page ?own ?known ?fetched
  case own => exact fun own => by simp [atlas, own, Except.mapError]
  case known => exact fun outcome other known => by simp [atlas, other, known]
  case fetched => exact fun outcome p' other _ _ => by simp [atlas, other, settleReference]

theorem resolve_resolved {external : ExternalReference} :
    (p.resolve w external.page).2.Resolved w (.external external) := by
  refine resolve_cases p w external.page ?own ?known ?fetched
  case own => exact .inl
  case known => exact fun outcome _ known => .inr (mem_of_known known)
  case fetched => exact fun outcome p' _ _ _ => .inr (by simp [settleReference])

end PageCalc.Progress
