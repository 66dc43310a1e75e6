import PageCalc.Proofs.Formula.Scanning

/-!
# Scanned tokens can be printed

Addresses that are scanned lie in the largest possible grid, numbers are finite and have no sign, and
labels and identifiers do not hold the characters at which they end.
-/

namespace PageCalc.Token

open Text

variable {c : Char} {cs after : List Char} {token : Token}

/-! ## Numbers -/

theorem spanFraction_append (cs : List Char) : (spanFraction cs).1 ++ (spanFraction cs).2 = cs := by
  unfold spanFraction
  split
  · rw [List.cons_append, List.takeWhile_append_dropWhile]
  · rfl

theorem spanSign_append (cs : List Char) : (spanSign cs).1 ++ (spanSign cs).2 = cs := by
  unfold spanSign
  split <;> rfl

theorem spanExponent_append (cs : List Char) : (spanExponent cs).1 ++ (spanExponent cs).2 = cs := by
  unfold spanExponent
  split
  · rfl
  · next mark rest =>
    split
    · rw [List.cons_append, List.append_assoc, List.takeWhile_append_dropWhile, spanSign_append]
    · rfl

theorem spanNumber_append (cs : List Char) : (spanNumber cs).1 ++ (spanNumber cs).2 = cs := by
  show (cs.takeWhile Char.isDigit ++ (spanFraction (cs.dropWhile Char.isDigit)).1 ++
    (spanExponent (spanFraction (cs.dropWhile Char.isDigit)).2).1) ++
      (spanExponent (spanFraction (cs.dropWhile Char.isDigit)).2).2 = cs
  rw [List.append_assoc, spanExponent_append, List.append_assoc, spanFraction_append,
    List.takeWhile_append_dropWhile]

theorem printable_of_scanNumber (starts : startsNumber c cs)
    (scanned : scanNumber (c :: cs) = .ok (token, after)) : token.Printable := by
  obtain ⟨value, found, rfl, -⟩ := scanNumber_eq_ok_iff.1 scanned
  obtain ⟨read, finite⟩ := Option.filter_eq_some_iff.1 found
  refine ⟨finite, Number.isNegative_of_read ?_ read⟩
  -- A number that is scanned begins with a digit or with a point.
  have whole := spanNumber_append (c :: cs)
  cases shown : (spanNumber (c :: cs)).1 with
  | nil => rfl
  | cons d ds =>
    rw [shown] at whole
    obtain rfl : d = c := (List.cons.inj whole).1
    have noSign : d ≠ '+' ∧ d ≠ '-' := by
      constructor <;> rintro rfl <;> simp [startsNumber] at starts
    unfold Number.Decimal.splitSign
    split
    · next same => cases same; exact absurd rfl noSign.2
    · rfl
    · rfl

/-! ## Words -/

theorem inBounds_of_addressOfWord {word : List Char} {a : Address} (read : addressOfWord word = .ok a) :
    a.InBounds := by
  unfold addressOfWord at read
  dsimp only at read
  cases found : Address.ofText (String.ofList word) with
  | error fault => rw [found] at read; cases read
  | ok a =>
    rw [found] at read
    cases read
    exact Address.inBounds_of_ofText found

theorem inBounds_spanning {a b : Address} (first : a.InBounds) (last : b.InBounds) :
    (Range.spanning a b).InBounds where
  first := ⟨Nat.lt_of_le_of_lt (Nat.min_le_left ..) first.1, Nat.lt_of_le_of_lt (Nat.min_le_left ..) first.2⟩
  last := ⟨Nat.max_lt.2 ⟨first.1, last.1⟩, Nat.max_lt.2 ⟨first.2, last.2⟩⟩

theorem ScansRange.printable {first : Address} (inBounds : first.InBounds)
    (scans : ScansRange first cs token after) : token.Printable := by
  cases scans with
  | range _ found => exact inBounds_spanning inBounds (inBounds_of_addressOfWord found)
  | cell => exact inBounds

/-- A word can be printed, unless it is a name that begins with what begins no word. -/
theorem printable_or_name_of_scanWord (scanned : scanWord cs = .ok (token, after)) :
    token.Printable ∨ token = .name (String.ofList (cs.takeWhile isWordChar)) := by
  cases scanWord_eq_ok_iff.1 scanned with
  | called | name => exact .inr rfl
  | isTrue | isFalse => exact .inl trivial
  | address _ _ _ _ found range => exact .inl (range.printable (inBounds_of_addressOfWord found))

theorem printable_of_scanWord (starts : startsWord c)
    (scanned : scanWord (c :: cs) = .ok (token, after)) : token.Printable := by
  rcases printable_or_name_of_scanWord scanned with printable | rfl
  · exact printable
  · rw [List.takeWhile_cons_of_pos (isWordChar_of_startsWord starts)]
    refine ⟨⟨c, _, String.toList_ofList, starts⟩, fun d member => ?_⟩
    rw [String.toList_ofList, List.mem_cons] at member
    rcases member with rfl | later
    · exact isWordChar_of_startsWord starts
    · exact List.mem_takeWhile_imp later

/-! ## References to other pages -/

theorem ScansTarget.printable {page : PageRef} (label : ']' ∉ page.label.toList)
    (identifier : ')' ∉ page.identifier.toList)
    (nonblank : (Text.trim page.identifier.toList).isEmpty = false)
    (scans : ScansTarget page cs token after) : token.Printable := by
  refine match scans with
    | .cell found | .range found => ?_
    | .wholeSheet _ => ⟨label, identifier, nonblank, trivial⟩
  -- Only a cell or a range is a target, and neither of them is a name.
  all_goals
    have printable := (printable_or_name_of_scanWord found).resolve_right (by simp)
    exact ⟨label, identifier, nonblank, printable⟩

theorem ScansPage.printable (scans : ScansPage cs token after) : token.Printable := by
  obtain ⟨isLabel, isIdentifier, nonblank, target⟩ := scans
  refine target.printable ?_ ?_ ?_
  · rw [String.toList_ofList]
    exact (cutAt?_eq_some isLabel).2
  · rw [String.toList_ofList]
    exact (cutAt?_eq_some isIdentifier).2
  · rw [String.toList_ofList]
    exact nonblank

/-! ## All tokens -/

theorem printable_of_single? (found : single? c = some token) : token.Printable := by
  unfold single? at found
  split at found <;> cases found <;> trivial

/-- Every token that is scanned can be printed. -/
theorem ScansToken.printable (scans : ScansToken c cs token after) : token.Printable := by
  cases scans with
  | single found => exact printable_of_single? found
  | less found => unfold scanLess at found; split at found <;> cases found <;> trivial
  | greater found => unfold scanGreater at found; split at found <;> cases found <;> trivial
  | text => trivial
  | page page => exact page.printable
  | number starts found => exact printable_of_scanNumber starts found
  | word starts _ found => exact printable_of_scanWord starts found

theorem ScansText.printable {tokens : List Token} (scans : ScansText cs tokens) :
    ∀ token ∈ tokens, token.Printable := by
  induction scans with
  | nil => exact List.forall_mem_nil _
  | cons _ first _ ih => exact List.forall_mem_cons.2 ⟨first.printable, ih⟩

end PageCalc.Token
