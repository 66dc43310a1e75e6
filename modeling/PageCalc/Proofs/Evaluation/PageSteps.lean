import Mathlib.Data.Fintype.EquivFin
import PageCalc.Proofs.Evaluation.Meaning

/-!
# Steps across pages

Where every cycle stays inside its page and no path goes across too often, references do not nest
forever: the cells of a page that lie on no cycle are ordered by the reads inside the page. So every
site denotes a value.
-/

namespace PageCalc

variable {π : Type}

namespace Atlas

variable {atlas : Atlas π} {s t u : Site π} {n : Nat}

/-- A walk from a site along reads, with the number of its steps across pages. -/
inductive Crosses (atlas : Atlas π) (s : Site π) : Nat → Site π → Prop where
  | start : Crosses atlas s 0 s
  | inside {n : Nat} {t u : Site π} (walk : Crosses atlas s n t) (step : atlas.ReadsInside t u) :
      Crosses atlas s n u
  | across {n : Nat} {t u : Site π} (walk : Crosses atlas s n t) (step : atlas.ReadsAcross t u) :
      Crosses atlas s (n + 1) u

/-- A path from a site, as the sites on it, the last one first, none of which comes twice, with the
number of its steps across pages. -/
inductive Path (atlas : Atlas π) (s : Site π) : List (Site π) → Nat → Prop where
  | start : Path atlas s [s] 0
  | inside {n : Nat} {t u : Site π} {sites : List (Site π)} (path : Path atlas s (t :: sites) n)
      (step : atlas.ReadsInside t u) (new : u ∉ t :: sites) : Path atlas s (u :: t :: sites) n
  | across {n : Nat} {t u : Site π} {sites : List (Site π)} (path : Path atlas s (t :: sites) n)
      (step : atlas.ReadsAcross t u) (new : u ∉ t :: sites) : Path atlas s (u :: t :: sites) (n + 1)

/-- From the site no read across a page lies on a cycle. -/
def CyclesInside (atlas : Atlas π) (s : Site π) : Prop :=
  ∀ t u, atlas.Reaches s t → atlas.ReadsAcross t u → ¬ atlas.Reaches u t

theorem Crosses.reaches (walk : atlas.Crosses s n t) : atlas.Reaches s t := by
  induction walk with
  | start => exact .refl
  | inside _ step ih => exact ih.tail step.reads
  | across _ step ih => exact ih.tail step.reads

theorem Path.reaches {sites : List (Site π)} (path : atlas.Path s (t :: sites) n) :
    atlas.Reaches s t := by
  generalize whole : t :: sites = all at path
  induction path generalizing t sites with
  | start => cases whole; exact .refl
  | inside _ step new ih => cases whole; exact (ih rfl).tail step.reads
  | across _ step new ih => cases whole; exact (ih rfl).tail step.reads

theorem exists_crosses (path : atlas.Reaches s t) : ∃ n, atlas.Crosses s n t := by
  induction path with
  | refl => exact ⟨0, .start⟩
  | tail _ reads ih =>
    obtain ⟨n, walk⟩ := ih
    rcases reads.inside_or_across with inside | across
    · exact ⟨n, walk.inside inside⟩
    · exact ⟨n + 1, walk.across across⟩

theorem Crosses.insides {page : π} {a b : Address} (walk : atlas.Crosses s n ⟨page, a⟩)
    (path : Relation.ReflTransGen (atlas.sheet page).Reads a b) : atlas.Crosses s n ⟨page, b⟩ := by
  induction path with
  | refl => exact walk
  | tail _ step ih => exact ih.inside ⟨rfl, step⟩

theorem Crosses.trans {m : Nat} (walk : atlas.Crosses s m t) (onward : atlas.Crosses t n u) :
    atlas.Crosses s (m + n) u := by
  induction onward with
  | start => exact walk
  | inside _ step ih => exact ih.inside step
  | across _ step ih => exact ih.across step

/-- A path may end at any of its sites, and goes across as often as before if no step across was cut
off. -/
theorem Path.cut {sites : List (Site π)} (path : atlas.Path s (t :: sites) n)
    (member : u ∈ t :: sites) :
    atlas.Reaches u t ∧ ∃ rest m, atlas.Path s (u :: rest) m ∧
      (m = n ∨ ∃ x y, atlas.Reaches u x ∧ atlas.ReadsAcross x y ∧ atlas.Reaches y t) := by
  generalize whole : t :: sites = all at path member
  induction path generalizing t sites with
  | start =>
    cases whole
    cases List.mem_singleton.1 member
    exact ⟨.refl, [], 0, .start, .inl rfl⟩
  | @inside n t' w sites path step new ih =>
    cases whole
    rcases List.mem_cons.1 member with rfl | earlier
    · exact ⟨.refl, _, n, .inside path step new, .inl rfl⟩
    · obtain ⟨onward, rest, m, shorter, count⟩ := ih rfl earlier
      refine ⟨onward.tail step.reads, rest, m, shorter, count.imp_right ?_⟩
      rintro ⟨x, y, before, crosses, after⟩
      exact ⟨x, y, before, crosses, after.tail step.reads⟩
  | @across n t' w sites path step new ih =>
    cases whole
    rcases List.mem_cons.1 member with rfl | earlier
    · exact ⟨.refl, _, n + 1, .across path step new, .inl rfl⟩
    -- Here a step across is cut off, and it lies between the new end and the old one.
    · obtain ⟨onward, rest, m, shorter, -⟩ := ih rfl earlier
      exact ⟨onward.tail step.reads, rest, m, shorter, .inr ⟨t', w, onward, step, .refl⟩⟩

/-- If all cycles stay inside pages, a walk can do without coming to a site twice. -/
theorem Crosses.exists_path (inside : atlas.CyclesInside s) (walk : atlas.Crosses s n t) :
    ∃ rest, atlas.Path s (t :: rest) n := by
  induction walk with
  | start => exact ⟨[], .start⟩
  | @inside n t u walk step ih =>
    obtain ⟨rest, path⟩ := ih
    by_cases seen : u ∈ t :: rest
    · obtain ⟨-, rest', m, shorter, count⟩ := path.cut seen
      -- A step that came back to `u` has gone around a cycle, which no step across lies on.
      rcases count with rfl | ⟨x, y, before, across, after⟩
      · exact ⟨rest', shorter⟩
      · have reachedX := (walk.reaches.tail step.reads).trans before
        exact absurd ((after.tail step.reads).trans before) (inside x y reachedX across)
    · exact ⟨_, path.inside step seen⟩
  | @across n t u walk step ih =>
    obtain ⟨rest, path⟩ := ih
    by_cases seen : u ∈ t :: rest
    · exact absurd (path.cut seen).1 (inside t u walk.reaches step)
    · exact ⟨_, path.across step seen⟩

/-! ## Existence -/

theorem exists_denotes_of_reads {e : Expr} (parsed : atlas.expr? s = some e)
    (offCycle : ¬ atlas.OnCycle s) (each : ∀ t, atlas.Reads s t → ∃ v, atlas.Denotes t v) :
    ∃ v, atlas.Denotes s v := by
  have chosen (t : Site π) : ∃ v, atlas.Reads s t → atlas.Denotes t v := by
    by_cases reads : atlas.Reads s t
    · exact (each t reads).imp fun v denotes _ => denotes
    · exact ⟨.blank, fun isRead => absurd isRead reads⟩
  choose V denotes using chosen
  exact ⟨_, denotes_of_reads parsed offCycle denotes⟩

/-- The formulas of a sheet that lie on no cycle. -/
abbrev Tame (sheet : Sheet) : Type := { a : Address // sheet.isFormula a ∧ ¬ sheet.OnCycle a }

/-- A formula comes after those that its reads inside the sheet lead to. -/
def Before (sheet : Sheet) (a b : Tame sheet) : Prop := Relation.TransGen sheet.Reads b.1 a.1

theorem before_wellFounded (sheet : Sheet) : WellFounded (Before sheet) := by
  have finite : Finite (Tame sheet) := by
    have inList (a : Tame sheet) : a.1 ∈ sheet.formulas.map Prod.fst := by
      obtain ⟨source, typed⟩ := Sheet.isFormula_iff.1 a.2.1
      exact List.mem_map.2 ⟨(a.1, source), Sheet.input_eq_formula_iff.1 typed, rfl⟩
    exact Finite.of_injective
      (fun a : Tame sheet => (⟨a.1, inList a⟩ : { a // a ∈ sheet.formulas.map Prod.fst }))
      fun a b same => Subtype.ext (congrArg (fun c => c.1) same)
  -- An order on finitely many formulas; it is strict, since none of them lies on a cycle.
  have trans : IsTrans (Tame sheet) (Before sheet) := ⟨fun a b c first second => second.trans first⟩
  have irrefl : Std.Irrefl (Before sheet) := ⟨fun a onCycle => a.2.2 onCycle⟩
  exact Finite.wellFounded_of_trans_of_irrefl _

theorem denotes_or_tame (atlas : Atlas π) (s : Site π) :
    (∃ v, atlas.Denotes s v) ∨ ∃ e, atlas.expr? s = some e ∧ ¬ atlas.OnCycle s := by
  rcases atlas.input_cases s with ⟨v, typed⟩ | ⟨source, fault, typed, parsed⟩ | ⟨e, parsed⟩
  · exact .inl ⟨v, .literal typed⟩
  · exact .inl ⟨_, .fault trivial typed parsed⟩
  · by_cases onCycle : atlas.OnCycle s
    · exact .inl ⟨_, .circular trivial parsed onCycle⟩
    · exact .inr ⟨e, parsed, onCycle⟩

/-- Where walks go across less than `limit` times, every site on them denotes a value. -/
theorem exists_denotes {limit : Nat} (bounded : ∀ n t, atlas.Crosses s n t → n < limit)
    (walk : atlas.Crosses s n t) : ∃ v, atlas.Denotes t v := by
  induction steps : limit - n generalizing n t with
  | zero => have := bounded n t walk; omega
  | succ steps ih =>
    have outside {t' u' : Site π} (walk : atlas.Crosses s n t') (across : atlas.ReadsAcross t' u') :
        ∃ v, atlas.Denotes u' v := ih (walk.across across) (by omega)
    -- Inside a page the reads of the formulas off cycles come to an end.
    have onPage (page : π) (a : Tame (atlas.sheet page)) :
        atlas.Crosses s n ⟨page, a.1⟩ → ∃ v, atlas.Denotes ⟨page, a.1⟩ v := by
      induction a using (before_wellFounded (atlas.sheet page)).induction with
      | _ a inner =>
        intro walk
        rcases atlas.denotes_or_tame ⟨page, a.1⟩ with denotes | ⟨e, parsed, offCycle⟩
        · exact denotes
        refine exists_denotes_of_reads parsed offCycle fun u reads => ?_
        rcases reads.inside_or_across with inside | across
        · rcases atlas.denotes_or_tame u with denotes | ⟨e', parsed', offCycle'⟩
          · exact denotes
          obtain ⟨page', b⟩ := u
          obtain ⟨rfl, step⟩ := inside
          refine inner ⟨b, Sheet.isFormula_of_expr? parsed', offCycle'⟩ (.single step) ?_
          exact walk.inside ⟨rfl, step⟩
        · exact outside walk across
    rcases atlas.denotes_or_tame t with denotes | ⟨e, parsed, offCycle⟩
    · exact denotes
    · exact onPage t.page ⟨t.address, Sheet.isFormula_of_expr? parsed, offCycle⟩ walk

end Atlas
end PageCalc
