import PageCalc.Proofs.Evaluation.PageSteps
import PageCalc.Proofs.Evaluation.Pages

/-!
# Meanings in other atlases

A part of an atlas that holds whatever its formulas read may also be found in another atlas, where its
pages go by other names. If the formulas make the same of the same values there, and lie on the same
cycles, they mean the same.
-/

namespace PageCalc

variable {π ρ : Type} {atlas : Atlas π} {other : Atlas ρ} {f : π → ρ} {domain : Site π → Prop}

/-- A path that does not leave a domain is taken along with its steps. -/
theorem transGen_along {α β : Type} {step : α → α → Prop} {step' : β → β → Prop} {inside : α → Prop}
    {g : α → β}
    (closed : ∀ a b, inside a → step a b → inside b)
    (agree : ∀ a b, inside a → step a b → step' (g a) (g b)) {a b : α} (start : inside a)
    (path : Relation.TransGen step a b) : Relation.TransGen step' (g a) (g b) := by
  suffices Relation.TransGen step' (g a) (g b) ∧ inside b from this.1
  induction path with
  | single first => exact ⟨.single (agree _ _ start first), closed _ _ start first⟩
  | tail _ last ih => exact ⟨ih.1.tail (agree _ _ ih.2 last), closed _ _ ih.2 last⟩

/-- The site on the page that another atlas has in place of its own. -/
def Site.along (f : π → ρ) (s : Site π) : Site ρ := ⟨f s.page, s.address⟩

namespace Atlas

variable {s t u : Site π} {e : Expr} {r : Reference} {v : Value} {n : Nat}

theorem expr?_congr {t : Site ρ} (same : other.input t = atlas.input s) :
    other.expr? t = atlas.expr? s := by
  have same : (other.sheet t.page).input t.address = (atlas.sheet s.page).input s.address := same
  simp only [expr?, Sheet.expr?, same]

/-- The domain is found in the other atlas, where its formulas show the same values if all that they
read have the same values, and whatever was typed in besides is what it is. -/
structure Recurs (atlas : Atlas π) (other : Atlas ρ) (f : π → ρ) (domain : Site π → Prop) : Prop where
  closed : atlas.Closed domain
  input : ∀ s, domain s → other.input (s.along f) = atlas.input s
  yields : ∀ (s : Site π) (e : Expr) (cells : Site π → Value → Prop) (others : Site ρ → Value → Prop)
    (x : Value), domain s → atlas.expr? s = some e →
    (∀ t u, atlas.Reads s t → cells t u → others (t.along f) u) →
    (∀ t u, (other.input t).literal? = some u → others t u) →
    (e.plan atlas.library).Yields (fun r u => (atlas.sight s.page r).Gives cells u) x →
    ∃ y, (e.plan other.library).Yields (fun r u => (other.sight (f s.page) r).Gives others u) y ∧
      y.finish = x.finish

/-- What a site means in one atlas it denotes in the other, if known sites are marked where they lie on
cycles there. -/
theorem Recurs.denotes {known marked : Site π → Prop} (recurs : atlas.Recurs other f domain)
    (verdicts : ∀ s, domain s → known s → (marked s ↔ other.OnCycle (s.along f))) (inDomain : domain s)
    (means : atlas.Means known marked s v) : other.Denotes (s.along f) v := by
  induction means with
  | literal typed => exact .literal (recurs.input _ inDomain ▸ typed)
  | fault _ typed parsed => exact .fault trivial ((recurs.input _ inDomain).trans typed) parsed
  | circular isKnown parsed isMarked =>
    exact .circular trivial ((expr?_congr (recurs.input _ inDomain)).trans parsed)
      ((verdicts _ inDomain isKnown).1 isMarked)
  | @formula s e x cells isKnown parsed unmarked each yields ih =>
    obtain ⟨y, yields', same⟩ := recurs.yields s e cells other.Denotes x inDomain parsed
      (fun t u reads cell => ih t u cell (recurs.closed s t inDomain reads))
      (fun t u typed => .literal typed) yields
    rw [← same]
    refine .formula trivial ((expr?_congr (recurs.input _ inDomain)).trans parsed) ?_ (fun _ _ => id) yields'
    exact fun onCycle => unmarked ((verdicts _ inDomain isKnown).2 onCycle)

/-! ## Copies -/

/-- The domain is found in the other atlas, where its references show the same sites up to the names of
pages. -/
structure Embeds (atlas : Atlas π) (other : Atlas ρ) (f : π → ρ) (domain : Site π → Prop) : Prop where
  closed : atlas.Closed domain
  library : other.library = atlas.library
  input : ∀ s, domain s → other.input (s.along f) = atlas.input s
  sight : ∀ s e, domain s → atlas.expr? s = some e → ∀ r ∈ e.references,
    other.sight (f s.page) r = (atlas.sight s.page r).map f

namespace Embeds

variable (embeds : atlas.Embeds other f domain)

include embeds

theorem recurs : atlas.Recurs other f domain where
  closed := embeds.closed
  input := embeds.input
  yields s e cells others x inDomain parsed weaker _ yields := by
    refine ⟨x, ?_, rfl⟩
    rw [embeds.library]
    refine (yields_within yields).mono ?_
    rintro r u ⟨member, gives⟩
    have member := e.evaluated_subset _ member
    rw [embeds.sight s e inDomain parsed r member]
    exact gives.map fun t seen v => weaker t v ⟨e, parsed, r, member, seen⟩

theorem expr? (inDomain : domain s) : other.expr? (s.along f) = atlas.expr? s :=
  expr?_congr (embeds.input s inDomain)

theorem mem_targets_iff {t : Site ρ} (inDomain : domain s) (parsed : atlas.expr? s = some e)
    (member : r ∈ e.references) :
    t ∈ other.targets (s.along f).page r ↔ ∃ u ∈ atlas.targets s.page r, u.along f = t := by
  rw [targets, Site.along, embeds.sight s e inDomain parsed r member, Sight.sites_map]
  exact List.mem_map

theorem reads (inDomain : domain s) (reads : atlas.Reads s t) : other.Reads (s.along f) (t.along f) := by
  obtain ⟨e, parsed, r, member, target⟩ := reads
  exact ⟨e, (embeds.expr? inDomain).trans parsed, r, member,
    (embeds.mem_targets_iff inDomain parsed member).2 ⟨t, target, rfl⟩⟩

theorem readsAcross (inDomain : domain s) (across : atlas.ReadsAcross s t) :
    other.ReadsAcross (s.along f) (t.along f) := by
  obtain ⟨e, parsed, r, member, external, target⟩ := across
  exact ⟨e, (embeds.expr? inDomain).trans parsed, r, member, external,
    (embeds.mem_targets_iff inDomain parsed member).2 ⟨t, target, rfl⟩⟩

theorem readsInside (inDomain : domain s) (inside : atlas.ReadsInside s t) :
    other.ReadsInside (s.along f) (t.along f) := by
  obtain ⟨e, parsed, r, member, isLocal, target⟩ := inside.exists_reference
  exact readsInside_of_isLocal ((embeds.expr? inDomain).trans parsed) member isLocal
    ((embeds.mem_targets_iff inDomain parsed member).2 ⟨t, target, rfl⟩)

/-- Whatever a site of the domain reads inside its page in the other atlas it reads in this one. -/
theorem reads_iff {page : π} {a b : Address} (inDomain : domain ⟨page, a⟩) :
    (other.sheet (f page)).Reads a b ↔ (atlas.sheet page).Reads a b := by
  constructor
  · intro reads
    have inside : other.ReadsInside (Site.along f ⟨page, a⟩) ⟨f page, b⟩ := ⟨rfl, reads⟩
    obtain ⟨e, parsed, r, member, isLocal, target⟩ := inside.exists_reference
    have parsed := (embeds.expr? inDomain).symm.trans parsed
    obtain ⟨u, target, same⟩ := (embeds.mem_targets_iff inDomain parsed member).1 target
    have back := (readsInside_of_isLocal parsed member isLocal target).2
    rw [show u.address = b from congrArg Site.address same] at back
    exact back
  · intro reads
    have inside : atlas.ReadsInside ⟨page, a⟩ ⟨page, b⟩ := ⟨rfl, reads⟩
    exact (embeds.readsInside inDomain inside).2

theorem dependsOn (inDomain : domain s) (path : atlas.DependsOn s t) :
    other.DependsOn (s.along f) (t.along f) :=
  transGen_along embeds.closed (fun _ _ => embeds.reads) inDomain path

theorem crosses (inDomain : domain s) (walk : atlas.Crosses s n t) :
    other.Crosses (s.along f) n (t.along f) := by
  suffices other.Crosses (s.along f) n (t.along f) ∧ domain t from this.1
  induction walk with
  | start => exact ⟨.start, inDomain⟩
  | inside _ step ih =>
    exact ⟨ih.1.inside (embeds.readsInside ih.2 step), embeds.closed _ _ ih.2 step.reads⟩
  | across _ step ih =>
    exact ⟨ih.1.across (embeds.readsAcross ih.2 step), embeds.closed _ _ ih.2 step.reads⟩

theorem onCycle_iff (inDomain : domain s) : other.OnCycle (s.along f) ↔ atlas.OnCycle s := by
  obtain ⟨page, a⟩ := s
  have closed (b c : Address) (inDomain : domain ⟨page, b⟩) (reads : (atlas.sheet page).Reads b c) :
      domain ⟨page, c⟩ := embeds.closed _ _ inDomain (ReadsInside.reads ⟨rfl, reads⟩)
  constructor
  · refine transGen_along (g := id) (fun b c inDomain reads => closed b c inDomain ?_)
      (fun b c inDomain => (embeds.reads_iff inDomain).1) inDomain
    exact (embeds.reads_iff inDomain).1 reads
  · exact transGen_along (g := id) closed (fun b c inDomain => (embeds.reads_iff inDomain).2) inDomain

end Embeds
end Atlas
end PageCalc
