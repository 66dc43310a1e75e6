import PageCalc.Proofs.Evaluation.Meaning
import PageCalc.Proofs.Evaluation.Runs

/-!
# Pages

The pages that a resolver finds make one atlas, in which references have a meaning before anything
is evaluated. If the resolver looks at identifiers only, the pages that an evaluation loads are
pages of this atlas, each at one place.
-/

namespace PageCalc

open Collection

/-- A page under the identifier that it calls itself. -/
structure Page where
  id : String
  sheet : Sheet

namespace Sight

variable {π ρ : Type} {f : π → ρ} {v : Value}

/-- The page of every site that is seen is renamed. -/
def map (f : π → ρ) : Sight π → Sight ρ
  | cell s => .cell ⟨f s.page, s.address⟩
  | cells ss => .cells (ss.map fun s => ⟨f s.page, s.address⟩)
  | nothing message => .nothing message

theorem sites_map {sight : Sight π} :
    (sight.map f).sites = sight.sites.map fun s => ⟨f s.page, s.address⟩ := by
  cases sight <;> rfl

theorem Gives.map {reads : Site π → Value → Prop} {others : Site ρ → Value → Prop} {sight : Sight π}
    (gives : sight.Gives reads v)
    (weaker : ∀ s ∈ sight.sites, ∀ v, reads s v → others ⟨f s.page, s.address⟩ v) :
    (sight.map f).Gives others v := by
  have renamed : (sight.map f).Gives (fun t v => ∃ s ∈ sight.sites,
      t = ⟨f s.page, s.address⟩ ∧ reads s v) v := by
    have gives : sight.Gives (fun s v => s ∈ sight.sites ∧ reads s v) v :=
      gives.mono fun s seen v holds => ⟨seen, holds⟩
    cases sight with
    | cell s =>
      obtain ⟨u, ⟨seen, answered⟩, same⟩ := gives
      exact ⟨u, ⟨s, seen, rfl, answered⟩, same⟩
    | cells ss =>
      obtain ⟨us, answered, same⟩ := gives
      exact ⟨us, List.forall₂_map_left_iff.2 (answered.imp fun s u holds =>
        ⟨s, holds.1, rfl, holds.2⟩), same⟩
    | nothing message => exact gives
  refine renamed.mono ?_
  rintro t seen v ⟨s, seenToo, rfl, holds⟩
  exact weaker s seenToo v holds

end Sight

theorem PageTarget.sight_map {π ρ : Type} {f : π → ρ} {policy : WholeSheetPolicy} {page : π} {sheet : Sheet}
    {target : PageTarget} : target.sight policy (f page) sheet = (target.sight policy page sheet).map f := by
  unfold PageTarget.sight WholeSheetPolicy.sight
  split
  · split <;> simp [Sight.map, Function.comp_def]
  · simp [Sight.map]
  · simp [Sight.map, Function.comp_def]

namespace Workbook

variable {w : Workbook}

/-- The page whose sheet is evaluated. -/
def rootPage (w : Workbook) : Page := ⟨w.pageId, w.sheet⟩

/-- The page that a reference leads to, or the message that says why there is none. -/
def find (w : Workbook) (page : PageRef) : Except String Page :=
  if page.identifier = w.pageId then .ok w.rootPage
  else match w.resolver page with
    | .ok answer => .ok ⟨answer.id, answer.sheet⟩
    | .error failure => .error failure.message

/-- The graph of all references, as the resolver and the options give them their meaning. -/
def atlas (w : Workbook) : Atlas Page := ⟨Page.sheet, w.find, w.options.wholeSheet, w.library⟩

/-- The resolver looks at identifiers only, and pages that call themselves the same are the same. -/
structure Coherent (w : Workbook) : Prop where
  find : ∀ r r' : PageRef, r.identifier = r'.identifier → w.find r = w.find r'
  sheet : ∀ (r r' : PageRef) (page page' : Page), w.find r = .ok page → w.find r' = .ok page' →
    page.id = page'.id → page.sheet = page'.sheet

theorem Coherent.page {r r' : PageRef} {page page' : Page} (coherent : w.Coherent)
    (found : w.find r = .ok page) (foundToo : w.find r' = .ok page') (same : page.id = page'.id) : page = page' := by
  have sameSheet := coherent.sheet r r' page page' found foundToo same
  cases page
  cases page'
  simp_all

theorem find_own {r : PageRef} (own : r.identifier = w.pageId) : w.find r = .ok w.rootPage :=
  if_pos own

/-! ## Workbooks of one page -/

theorem find_of_none {r : PageRef} {page : Page} (none : w.resolver = .none) (found : w.find r = .ok page) :
    page = w.rootPage := by
  unfold find at found
  rw [none] at found
  split at found
  · exact (Except.ok.inj found).symm
  · cases found

theorem coherent_of_none (none : w.resolver = .none) : w.Coherent where
  find r r' same := by
    unfold find
    rw [same, none]
    split <;> rfl
  sheet r r' page page' found found' _ := by rw [find_of_none none found, find_of_none none found']

section Local

variable {s t : Site Page} (isLocal : w.sheet.IsLocal)

include isLocal

theorem not_readsAcross (onRoot : s.page = w.rootPage) : ¬ w.atlas.ReadsAcross s t := by
  obtain ⟨page, a⟩ := s
  subst onRoot
  rintro ⟨e, parsed, r, member, external, -⟩
  have parsed : w.sheet.expr? a = some e := parsed
  rw [isLocal a e r parsed member] at external
  cases external

theorem onRoot_of_reaches (onRoot : s.page = w.rootPage) (path : w.atlas.Reaches s t) : t.page = w.rootPage := by
  induction path with
  | refl => exact onRoot
  | tail _ reads ih =>
    rcases reads.inside_or_across with inside | across
    · exact inside.1.trans ih
    · exact absurd across (not_readsAcross isLocal ih)

end Local

end Workbook

namespace Progress

variable {w : Workbook} {p p' : Progress} {key t : CellKey} {place : Nat} {r : Reference} {v : Value}

/-- The page at a place. -/
def pageAt (p : Progress) (place : Nat) : Page where
  id := (p.pages[place]?.map LoadedPage.id).getD ""
  sheet := p.sheet place

/-- The site of a cell. -/
def site (p : Progress) (key : CellKey) : Site Page := ⟨p.pageAt key.page, key.address⟩

theorem pageAt_of_page {page : LoadedPage} (loaded : p.pages[place]? = some page) :
    p.pageAt place = ⟨page.id, page.sheet⟩ := by
  simp [pageAt, loaded, sheet_of_page loaded]

theorem Grows.pageAt (grows : p.Grows p') (loaded : place < p.pages.size) :
    p'.pageAt place = p.pageAt place := by
  simp only [Progress.pageAt, grows.sheet loaded, grows.pages place loaded]

theorem Grows.site (grows : p.Grows p') (loaded : key.page < p.pages.size) :
    p'.site key = p.site key := by
  simp only [Progress.site, grows.pageAt loaded]

theorem Kept.site_injective (kept : p.Kept) (loaded : key.page < p.pages.size)
    (loadedToo : t.page < p.pages.size) (same : p.site key = p.site t) : key = t := by
  obtain ⟨page, isPage, -⟩ := exists_page loaded
  obtain ⟨other, isOther, -⟩ := exists_page loadedToo
  simp only [Progress.site, Site.mk.injEq, pageAt_of_page isPage, pageAt_of_page isOther,
    Page.mk.injEq] at same
  have samePlace := kept.ids _ _ page other isPage isOther same.1.1
  cases key
  cases t
  simp_all

/-- The loaded pages are those that references lead to. -/
structure Faithful (w : Workbook) (p : Progress) : Prop where
  pages : ∀ page ∈ p.pages, ∃ r, w.find r = .ok ⟨page.id, page.sheet⟩
  resolutions : ∀ (r : PageRef) (outcome : Except ResolveError Nat),
    r.identifier ≠ w.pageId → p.resolutions[r.identifier]? = some outcome →
    w.find r = (outcome.map p.pageAt).mapError ResolveError.message

theorem pageAt_root (placed : p.Placed w) : p.pageAt root = w.rootPage := by
  obtain ⟨page, loaded, isRoot, sheet⟩ := placed.root
  rw [pageAt_of_page loaded, isRoot, sheet, Workbook.rootPage]

theorem Faithful.find {page : PageRef} (faithful : p.Faithful w) (placed : p.Placed w)
    (known : page.identifier = w.pageId ∨ page.identifier ∈ p.resolutions) :
    w.find page = ((p.atlas w).find page).map p.pageAt := by
  unfold atlas
  dsimp only
  split
  · next own => rw [Workbook.find_own own, ← pageAt_root placed]; rfl
  · next other =>
    have known := known.resolve_left other
    obtain ⟨outcome, known⟩ := mem_iff_exists.1 known
    rw [faithful.resolutions page outcome other known, known]
    cases outcome <;> rfl

/-- A reference shows the same before anything is loaded. -/
theorem Faithful.sight (faithful : p.Faithful w) (placed : p.Placed w) (resolved : p.Resolved w r) :
    w.atlas.sight (p.pageAt place) r = ((p.atlas w).sight place r).map p.pageAt := by
  cases r with
  | cell a => rfl
  | range area => simp [Atlas.sight, Workbook.atlas, pageAt, Sight.map, Function.comp_def]
  | external external =>
    have leads := faithful.find placed resolved
    cases found : (p.atlas w).find external.page with
    | error message =>
      rw [found] at leads
      rw [Atlas.sight_missing found, Atlas.sight_missing leads]
      rfl
    | ok there =>
      rw [found] at leads
      rw [Atlas.sight_external found, Atlas.sight_external leads]
      exact PageTarget.sight_map

theorem site_of_target (faithful : p.Faithful w) (placed : p.Placed w)
    (target : t ∈ (p.atlas w).targets place r) : p.site t ∈ w.atlas.targets (p.pageAt place) r := by
  rw [Atlas.targets, faithful.sight placed (resolved_of_target target), Sight.sites_map]
  exact List.mem_map_of_mem target

theorem exists_of_target_site {s : Site Page} (faithful : p.Faithful w) (placed : p.Placed w)
    (resolved : p.Resolved w r) (target : s ∈ w.atlas.targets (p.pageAt place) r) :
    ∃ t ∈ (p.atlas w).targets place r, p.site t = s := by
  rw [Atlas.targets, faithful.sight placed resolved, Sight.sites_map] at target
  exact List.mem_map.1 target

theorem input_site : w.atlas.input (p.site key) = p.input key := rfl

theorem Faithful.reads (faithful : p.Faithful w) (placed : p.Placed w)
    (reads : (p.atlas w).Reads key t) : w.atlas.Reads (p.site key) (p.site t) := by
  obtain ⟨e, parsed, r, member, target⟩ := reads
  exact ⟨e, parsed, r, member, site_of_target faithful placed target⟩

theorem Faithful.dependsOn (faithful : p.Faithful w) (placed : p.Placed w)
    (path : (p.atlas w).DependsOn key t) : w.atlas.DependsOn (p.site key) (p.site t) :=
  path.lift p.site fun _ _ => faithful.reads placed

theorem Faithful.demands (faithful : p.Faithful w) (placed : p.Placed w)
    (demands : (p.atlas w).Demands key t) : w.atlas.Demands (p.site key) (p.site t) := by
  obtain ⟨e, parsed, r, member, target⟩ := demands
  exact ⟨e, parsed, r, member, site_of_target faithful placed target⟩

theorem Faithful.readsAcross (faithful : p.Faithful w) (placed : p.Placed w)
    (across : (p.atlas w).DemandsAcross key t) : w.atlas.ReadsAcross (p.site key) (p.site t) := by
  obtain ⟨e, parsed, r, member, external, target⟩ := across
  exact ⟨e, parsed, r, e.evaluated_subset _ member, external,
    site_of_target faithful placed target⟩

/-! ## Loading pages -/

theorem begin_faithful (w : Workbook) (cache : ParseCache) : (w.begin cache).Faithful w where
  pages page member := by
    refine ⟨⟨w.pageId, ""⟩, ?_⟩
    rw [Pass.begin_pages] at member
    obtain rfl := by simpa using member
    exact Workbook.find_own rfl
  resolutions r outcome other known := by simp [Workbook.begin, Progress.load, Progress.start] at known

variable {page : PageRef} {outcome : Except ResolveError Nat}

theorem Fetched.find (fetched : Fetched w p page outcome p') (coherent : w.Coherent)
    (faithful : p.Faithful w) (other : page.identifier ≠ w.pageId) :
    w.find page = (outcome.map p'.pageAt).mapError ResolveError.message := by
  cases fetched with
  | missing answer => simp [Workbook.find, other, answer, Except.map, Except.mapError]
  -- The page that is found at a place calls itself the same, so it is the same page.
  | @known answer place given found =>
    have leads : w.find page = .ok ⟨answer.id, answer.sheet⟩ := by
      simp [Workbook.find, other, given]
    obtain ⟨inBounds, sameId, -⟩ := Array.findIdx?_eq_some_iff_getElem.1 found
    obtain ⟨r, leadsToo⟩ := faithful.pages _ (Array.getElem_mem inBounds)
    have same := coherent.page leads leadsToo (by simpa using (of_decide_eq_true sameId).symm)
    have loaded : p.pages[place]? = some p.pages[place] := Array.getElem?_eq_getElem inBounds
    rw [leads, same]
    exact congrArg Except.ok (pageAt_of_page loaded).symm
  | @loaded answer given new =>
    have isNew : ({ p with calls := page :: p.calls }.load answer.id answer.sheet).2.pages[
        p.pages.size]? = some ⟨answer.id, answer.sheet, _⟩ := Array.getElem?_push_size
    simp [Workbook.find, other, given, Except.map, Except.mapError, pageAt_of_page isNew]

theorem Fetched.pages (fetched : Fetched w p page outcome p') (faithful : p.Faithful w)
    (other : page.identifier ≠ w.pageId) :
    ∀ page ∈ p'.pages, ∃ r, w.find r = .ok ⟨page.id, page.sheet⟩ := by
  cases fetched with
  | missing | known => exact faithful.pages
  | loaded given new =>
    intro page' member
    rcases Array.mem_push.1 member with before | rfl
    · exact faithful.pages page' before
    · exact ⟨page, by simp [Workbook.find, other, given]⟩

theorem resolve_faithful (coherent : w.Coherent) (kept : p.Kept) (placed : p.Placed w)
    (faithful : p.Faithful w) : (p.resolve w page).2.Faithful w := by
  refine resolve_cases p w page ?own ?known ?fetched
  case own => exact fun _ => faithful
  case known => exact fun _ _ _ => faithful
  case fetched =>
    intro outcome p' other unknown fetched
    refine ⟨fetched.pages faithful other, fun r outcome' otherToo known => ?_⟩
    show w.find r = (outcome'.map p'.pageAt).mapError ResolveError.message
    -- The new resolution is that of the identifier, whichever reference it was asked for by.
    rw [settleReference, Std.ExtTreeMap.getElem?_insert] at known
    split at known
    · next isPage =>
      rw [Std.LawfulEqCmp.compare_eq_iff_eq] at isPage
      cases known
      rw [coherent.find r page isPage.symm, fetched.find coherent faithful other]
    · rw [fetched.same.1] at known
      rw [faithful.resolutions r outcome' otherToo known]
      cases outcome' with
      | error failure => rfl
      | ok place =>
        have stays := (fetched.grows kept).pageAt (placed.resolved _ _ known)
        simp only [Except.map, stays]

end Progress

namespace Pass

variable {pass : Pass} {p p' : Progress}

theorem Step.faithful (coherent : pass.book.Coherent) (valid : pass.Valid p) (step : pass.Step p p')
    (faithful : p.Faithful pass.book) : p'.Faithful pass.book := by
  cases step with
  | parse | close | enter | leave => exact ⟨faithful.pages, faithful.resolutions⟩
  | resolve page => exact Progress.resolve_faithful coherent valid.toKept valid.toPlaced faithful

theorem Steps.faithful (coherent : pass.book.Coherent) (valid : pass.Valid p)
    (steps : pass.Steps p p') (faithful : p.Faithful pass.book) : p'.Faithful pass.book := by
  induction steps with
  | refl => exact faithful
  | tail steps step ih => exact step.faithful coherent (Steps.valid valid steps) ih

end Pass
end PageCalc
