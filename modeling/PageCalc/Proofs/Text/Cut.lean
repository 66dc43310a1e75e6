import Mathlib.Data.List.TakeWhile
import PageCalc.Text.Blank

/-!
# Cutting texts

Where a text is cut, if it is known what the part before the cut consists of. Which characters it consists of
is mostly told by a class of ASCII characters, and these are few enough to be looked at one by one.
-/

namespace PageCalc.Text

variable {p : Char → Bool} {run rest cs before after : List Char} {mark : Char}

/-! ## Characters -/

@[elab_as_elim]
theorem forall_ascii {P : Char → Prop} (c : Char) (ascii : c.toNat < 128)
    (each : ∀ n < 128, P (Char.ofNat n)) : P c := by
  have spec := each c.toNat ascii
  rwa [Char.ofNat_toNat] at spec

theorem toNat_lt_of_le {c last : Char} (le : c.val ≤ last.val) (ascii : last.toNat < 128) : c.toNat < 128 :=
  Nat.lt_of_le_of_lt (UInt32.le_iff_toNat_le.1 le) ascii

theorem toNat_lt_of_isAlphanum {c : Char} (isAlphanum : c.isAlphanum) : c.toNat < 128 := by
  rcases Bool.or_eq_true_iff.1 isAlphanum with alpha | digit
  · rcases Bool.or_eq_true_iff.1 alpha with upper | lower
    · exact toNat_lt_of_le (of_decide_eq_true upper).2 (by decide)
    · exact toNat_lt_of_le (of_decide_eq_true (Bool.and_eq_true_iff.1 lower).2) (by decide)
  · exact toNat_lt_of_le (of_decide_eq_true (Bool.and_eq_true_iff.1 digit).2) (by decide)

/-! ## Runs -/

/-- A text after which a run of characters ends, since none that belongs to it comes first. -/
def EndsRun (p : Char → Bool) (rest : List Char) : Prop := ∀ c, rest.head? = some c → p c = false

theorem EndsRun.mono {q : Char → Bool} (ends : EndsRun q rest) (fewer : ∀ c, q c = false → p c = false) :
    EndsRun p rest :=
  fun c first => fewer c (ends c first)

theorem takeWhile_run (all : ∀ c ∈ run, p c) (ends : EndsRun p rest) :
    (run ++ rest).takeWhile p = run := by
  rw [List.takeWhile_append_of_pos all]
  cases rest with
  | nil => rw [List.takeWhile_nil, List.append_nil]
  | cons c rest =>
    rw [List.takeWhile_cons_of_neg (by simp [ends c rfl]), List.append_nil]

theorem dropWhile_run (all : ∀ c ∈ run, p c) (ends : EndsRun p rest) :
    (run ++ rest).dropWhile p = rest := by
  rw [List.dropWhile_append_of_pos all]
  cases rest with
  | nil => rfl
  | cons c rest => rw [List.dropWhile_cons_of_neg (by simp [ends c rfl])]

/-! ## Marks -/

theorem cutAt?_append (unmarked : mark ∉ before) :
    cutAt? mark (before ++ mark :: after) = some (before, after) := by
  induction before with
  | nil => simp [cutAt?]
  | cons c before ih =>
    rw [List.mem_cons, not_or] at unmarked
    simp [cutAt?, Ne.symm unmarked.1, ih unmarked.2]

theorem cutAt?_eq_some (found : cutAt? mark cs = some (before, after)) :
    cs = before ++ mark :: after ∧ mark ∉ before := by
  induction cs generalizing before with
  | nil => cases found
  | cons c cs ih =>
    rw [cutAt?] at found
    split at found
    · next same =>
      cases found
      exact ⟨by rw [same]; rfl, List.not_mem_nil⟩
    · next other =>
      obtain ⟨⟨inner, left⟩, foundLater, same⟩ := Option.map_eq_some_iff.1 found
      cases same
      obtain ⟨rfl, unmarked⟩ := ih foundLater
      exact ⟨rfl, by simp [Ne.symm other, unmarked]⟩

/-! ## Pieces -/

theorem pieces_cons {isSeparator : Char → Bool} {c : Char} {piece : List Char} {more : List (List Char)}
    (unseparated : isSeparator c = false) (rest : pieces isSeparator cs = piece :: more) :
    pieces isSeparator (c :: cs) = (c :: piece) :: more := by
  simp only [pieces, List.cons.injEq] at rest
  simp [pieces, cut_cons, unseparated, rest]

theorem pieces_append {isSeparator : Char → Bool} {separator : Char}
    (unseparated : ∀ c ∈ run, isSeparator c = false) (separates : isSeparator separator) :
    pieces isSeparator (run ++ separator :: rest) = run :: pieces isSeparator rest := by
  induction run with
  | nil => simp [pieces, cut_cons, separates]
  | cons c run ih =>
    obtain ⟨first, others⟩ := List.forall_mem_cons.1 unseparated
    exact pieces_cons first (ih others)

theorem pieces_of_unseparated {isSeparator : Char → Bool} (unseparated : ∀ c ∈ run, isSeparator c = false) :
    pieces isSeparator run = [run] := by
  induction run with
  | nil => rfl
  | cons c run ih =>
    obtain ⟨first, others⟩ := List.forall_mem_cons.1 unseparated
    exact pieces_cons first (ih others)

/-! ## Blanks -/

/-- Only blanks are trimmed, before and after what is left. -/
theorem exists_trim (cs : List Char) : ∃ before after, cs = before ++ (trim cs ++ after) ∧
    (∀ c ∈ before, isBlank c) ∧ ∀ c ∈ after, isBlank c := by
  let rest := cs.dropWhile isBlank
  refine ⟨cs.takeWhile isBlank, (rest.reverse.takeWhile isBlank).reverse, ?_, fun c => List.mem_takeWhile_imp,
    fun c member => List.mem_takeWhile_imp (List.mem_reverse.1 member)⟩
  have whole := congrArg List.reverse (List.takeWhile_append_dropWhile (p := isBlank) (l := rest.reverse))
  rw [List.reverse_append, List.reverse_reverse] at whole
  rw [trim, whole, List.takeWhile_append_dropWhile]

/-- A text without blanks is what is left of it with blanks around it. -/
theorem trim_append (blankBefore : ∀ c ∈ before, isBlank c) (blankAfter : ∀ c ∈ after, isBlank c)
    (noBlank : ∀ c ∈ run, isBlank c = false) : trim (before ++ (run ++ after)) = run := by
  cases run with
  | nil =>
    have none : (before ++ after).dropWhile isBlank = [] := List.dropWhile_eq_nil_iff.2 fun c member =>
      (List.mem_append.1 member).elim (blankBefore c) (blankAfter c)
    rw [List.nil_append, trim, none]
    rfl
  | cons d run =>
    have front : EndsRun isBlank (d :: run ++ after) := by
      intro c first
      cases first
      exact noBlank d List.mem_cons_self
    have back : EndsRun isBlank (d :: run).reverse := fun c first =>
      noBlank c (List.mem_reverse.1 (List.mem_of_head? first))
    rw [trim, dropWhile_run blankBefore front, List.reverse_append,
      dropWhile_run (fun c member => blankAfter c (List.mem_reverse.1 member)) back, List.reverse_reverse]

/-- A text that is not all blanks is not trimmed to nothing. -/
theorem trim_ne_nil {c : Char} (member : c ∈ cs) (notBlank : isBlank c = false) : trim cs ≠ [] := by
  intro none
  obtain ⟨before, after, whole, blankBefore, blankAfter⟩ := exists_trim cs
  rw [none, List.nil_append] at whole
  rw [whole] at member
  have blank := (List.mem_append.1 member).elim (blankBefore c) (blankAfter c)
  rw [notBlank] at blank
  cases blank

end PageCalc.Text
