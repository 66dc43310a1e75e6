import Mathlib.Data.List.Perm.Subperm
import Mathlib.Data.List.ProdSigma
import PageCalc.Proofs.Evaluation.Loading
import PageCalc.Proofs.Graph.Walk

/-!
# The precedents of a formula

The pending precedents of a cell are the pending cells of its page that reads inside the page lead
to. In their order each comes after those that its formula reads, since the cells on cycles of the
page are not pending.
-/

namespace PageCalc.Progress

open Collection PageCalc.Graph

variable {w : Workbook} {p : Progress} {key : CellKey} {place : Nat} {a b : Address}

theorem exists_page (loaded : place < p.pages.size) :
    ∃ page, p.pages[place]? = some page ∧ page ∈ p.pages :=
  ⟨p.pages[place], Array.getElem?_eq_getElem loaded, Array.getElem_mem loaded⟩

theorem Kept.dependencies (kept : p.Kept) (loaded : place < p.pages.size) :
    ∃ cache, p.dependencies place = (Dependencies.ofSheet (p.sheet place) cache).1 := by
  obtain ⟨page, isPage, member⟩ := exists_page loaded
  obtain ⟨cache, gathered⟩ := kept.gathered page member
  refine ⟨cache, ?_⟩
  rw [sheet_of_page isPage, ← gathered]
  simp [Progress.dependencies, isPage]

/-- A formula that is pending does not lie on a cycle of its page. -/
theorem Kept.not_onCycle (kept : p.Kept) (pending : p.isPending key) :
    ¬ (p.sheet key.page).OnCycle key.address := by
  intro onCycle
  obtain ⟨-, unfinished, -⟩ := isPending_iff.1 pending
  exact unfinished (mem_of_known (kept.premarked key.page key.address onCycle))

/-- A read of a pending cell inside a page. -/
def ReadsPending (p : Progress) (place : Nat) (a b : Address) : Prop :=
  (p.sheet place).Reads a b ∧ p.isPending ⟨place, b⟩

theorem mem_pendingReads (kept : p.Kept) (loaded : place < p.pages.size) :
    b ∈ p.pendingReads place a ↔ p.ReadsPending place a b := by
  obtain ⟨cache, same⟩ := kept.dependencies loaded
  rw [pendingReads, List.mem_reverse, List.mem_filter, same, Dependencies.mem_precedentsOf_ofSheet]
  rfl

/-- The cells that may be precedents of `key`. -/
def others (p : Progress) (key : CellKey) : AddressSet :=
  (p.dependencies key.page).formulas.erase key.address

theorem mem_others (kept : p.Kept) (loaded : key.page < p.pages.size) :
    b ∈ p.others key ↔ b ≠ key.address ∧ p.IsFormula ⟨key.page, b⟩ := by
  obtain ⟨cache, same⟩ := kept.dependencies loaded
  rw [others, mem_erase, same, Dependencies.mem_formulas_ofSheet]
  rfl

theorem edge_iff (kept : p.Kept) (loaded : key.page < p.pages.size) :
    Edge (p.pendingReads key.page) (p.others key) a b ↔
      p.ReadsPending key.page a b ∧ b ≠ key.address := by
  rw [Edge, mem_pendingReads kept loaded, mem_others kept loaded]
  refine and_congr_right fun reads => and_iff_left ?_
  exact (isPending_iff.1 reads.2).1

theorem leads_readsPending (kept : p.Kept) (loaded : key.page < p.pages.size)
    (path : Leads (p.pendingReads key.page) (p.others key) a b) :
    Relation.ReflTransGen (p.ReadsPending key.page) a b :=
  Relation.ReflTransGen.mono (fun _ _ edge => ((edge_iff kept loaded).1 edge).1) _ _ path

theorem mem_pendingPrecedents (kept : p.Kept) (loaded : key.page < p.pages.size)
    (member : a ∈ p.pendingPrecedents key) :
    p.isPending ⟨key.page, a⟩ ∧ Relation.TransGen (p.ReadsPending key.page) key.address a := by
  rw [pendingPrecedents, List.mem_reverse] at member
  obtain ⟨root, isRoot, rootAllowed, path⟩ := mem_finishOrder.1 member
  have first := (mem_pendingReads kept loaded).1 isRoot
  have path := Relation.TransGen.head' first (leads_readsPending kept loaded path)
  obtain ⟨c, -, last⟩ := Relation.TransGen.tail'_iff.1 path
  exact ⟨last.2, path⟩

theorem onCycle_of_readsPending (path : Relation.TransGen (p.ReadsPending place) a a) :
    (p.sheet place).OnCycle a := Relation.TransGen.mono (fun _ _ => And.left) _ _ path

/-- The pending cells of its page that a pending formula reads are among its precedents. -/
theorem pendingPrecedents_complete (kept : p.Kept) (pending : p.isPending key)
    (reads : p.ReadsPending key.page key.address b) : b ∈ p.pendingPrecedents key := by
  have loaded := (isPending_iff.1 pending).1.loaded
  have noLoop : b ≠ key.address := by
    rintro rfl
    exact kept.not_onCycle pending (onCycle_of_readsPending (.single reads))
  rw [pendingPrecedents, List.mem_reverse]
  refine mem_finishOrder.2 ⟨b, (mem_pendingReads kept loaded).2 reads, ?_, .refl⟩
  exact (mem_others kept loaded).2 ⟨noLoop, (isPending_iff.1 reads.2).1⟩

/-- A precedent comes after the pending cells of the page that its own formula reads. -/
theorem pendingPrecedents_ordered (kept : p.Kept) (pending : p.isPending key)
    {before after : List Address} (split : p.pendingPrecedents key = before ++ a :: after)
    (reads : p.ReadsPending key.page a b) : b ∈ before := by
  have loaded := (isPending_iff.1 pending).1.loaded
  have member : a ∈ p.pendingPrecedents key := by simp [split]
  obtain ⟨pendingA, pathA⟩ := mem_pendingPrecedents kept loaded member
  -- The walk leaves out the cell itself, which no precedent reads, or it would lie on a cycle.
  have notKey : b ≠ key.address := by
    rintro rfl
    exact kept.not_onCycle pending (onCycle_of_readsPending (pathA.tail reads))
  have ordered := finishOrder_isOrder (p.pendingReads key.page) (p.others key)
    (p.pendingReads key.page key.address)
  have finishSplit : finishOrder (p.pendingReads key.page) (p.others key)
      (p.pendingReads key.page key.address) = after.reverse ++ a :: before.reverse := by
    have := congrArg List.reverse split
    simpa [pendingPrecedents, others] using this
  rw [finishSplit] at ordered
  have closed := ordered.drop.1 a List.mem_cons_self b ((edge_iff kept loaded).2 ⟨reads, notKey⟩)
  -- A cell that leads back to `a` would lie on a cycle of the page, and so would `a`.
  have noReturn (path : Relation.ReflTransGen (p.ReadsPending key.page) b a) : False :=
    kept.not_onCycle pendingA (onCycle_of_readsPending (.head' reads path))
  rcases closed with inside | path
  · rcases List.mem_cons.1 inside with rfl | earlier
    · exact (noReturn .refl).elim
    · exact List.mem_reverse.1 earlier
  · exact (noReturn (leads_readsPending kept loaded path)).elim

/-- The precedents are all the cells that pending reads lead to. -/
theorem mem_pendingPrecedents_iff (kept : p.Kept) (pending : p.isPending key) :
    a ∈ p.pendingPrecedents key ↔ Relation.TransGen (p.ReadsPending key.page) key.address a := by
  have loaded := (isPending_iff.1 pending).1.loaded
  refine ⟨fun member => (mem_pendingPrecedents kept loaded member).2, fun path => ?_⟩
  induction path with
  | single reads => exact pendingPrecedents_complete kept pending reads
  | tail _ reads ih =>
    obtain ⟨before, after, split⟩ := List.append_of_mem ih
    rw [split]
    exact List.mem_append_left _ (pendingPrecedents_ordered kept pending split reads)

theorem pendingPrecedents_eq_nil (kept : p.Kept) (pending : p.isPending key)
    (settled : ∀ b, (p.sheet key.page).Reads key.address b → ¬ p.isPending ⟨key.page, b⟩) :
    p.pendingPrecedents key = [] := by
  refine List.eq_nil_iff_forall_not_mem.2 fun a member => ?_
  obtain ⟨b, reads, -⟩ :=
    Relation.TransGen.head'_iff.1 ((mem_pendingPrecedents_iff kept pending).1 member)
  exact settled b reads.1 reads.2

/-- A precedent has fewer precedents of its own: it is not one of them, or it would lie on a cycle. -/
theorem length_pendingPrecedents_lt (kept : p.Kept) (pending : p.isPending key)
    (member : a ∈ p.pendingPrecedents key) :
    (p.pendingPrecedents ⟨key.page, a⟩).length < (p.pendingPrecedents key).length := by
  have loaded := (isPending_iff.1 pending).1.loaded
  obtain ⟨pendingA, path⟩ := mem_pendingPrecedents kept loaded member
  have notOwn : a ∉ p.pendingPrecedents ⟨key.page, a⟩ := fun own =>
    kept.not_onCycle pendingA (onCycle_of_readsPending ((mem_pendingPrecedents_iff kept pendingA).1 own))
  have distinct : (a :: p.pendingPrecedents ⟨key.page, a⟩).Nodup :=
    List.nodup_cons.2 ⟨notOwn, List.nodup_reverse.2 (nodup_finishOrder ..)⟩
  have within : a :: p.pendingPrecedents ⟨key.page, a⟩ ⊆ p.pendingPrecedents key := by
    refine List.cons_subset.2 ⟨member, fun b own => ?_⟩
    exact (mem_pendingPrecedents_iff kept pending).2
      (path.trans ((mem_pendingPrecedents_iff kept pendingA).1 own))
  exact (List.subperm_of_subset distinct within).length_le

/-- No grid has more cells than the largest one, so no formula has more precedents. -/
theorem length_pendingPrecedents_le (kept : p.Kept) (pending : p.isPending key) :
    (p.pendingPrecedents key).length ≤ maxRows * maxColumns := by
  have loaded := (isPending_iff.1 pending).1.loaded
  have within : p.pendingPrecedents key ⊆
      (List.range maxRows ×ˢ List.range maxColumns).map fun place => ⟨place.1, place.2⟩ := by
    intro a member
    have formula := (isPending_iff.1 (mem_pendingPrecedents kept loaded member).1).1
    obtain ⟨row, column⟩ := Sheet.inBounds_of_isFormula formula
    exact List.mem_map.2 ⟨(a.row, a.column),
      List.mem_product.2 ⟨List.mem_range.2 row, List.mem_range.2 column⟩, rfl⟩
  have distinct : (p.pendingPrecedents key).Nodup := List.nodup_reverse.2 (nodup_finishOrder ..)
  have fewer := (List.subperm_of_subset distinct within).length_le
  rwa [List.length_map, List.length_product, List.length_range, List.length_range] at fewer

end PageCalc.Progress
