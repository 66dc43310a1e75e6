import PageCalc.Formula.Cursor
import PageCalc.Proofs.Formula.Scanned

/-!
# The cursor stays between characters

What is done with the cursor is what the scanning of the rest of the text does: the cursor always stands between
two characters, before the end of the text that is left.
-/

namespace PageCalc.Lexer

open Token (byteLength position cutAtByte? cutAtByte?_append byteLength_append byteLength_cons isWordChar)

variable {α β : Type} {text cs after : List Char} {c : Char}

/-- With the cursor before the end `cs` of the text, something has an outcome. If that is no refusal, the cursor
stands before an end of the text again. -/
inductive Gives (text : List Char) (m : Lexer α) (cs : List Char) : Except FormulaError (α × List Char) → Prop where
  | ok {v : α} {after : List Char} (isEnd : after <:+ text)
      (run : m text (position (byteLength text) cs) = some (.ok (v, position (byteLength text) after))) :
      Gives text m cs (.ok (v, after))
  | error {fault : FormulaError} (run : m text (position (byteLength text) cs) = some (.error fault)) :
      Gives text m cs (.error fault)

theorem position_append (before after : List Char) :
    position (byteLength (before ++ after)) after = byteLength before := by
  rw [position, byteLength_append, Nat.add_sub_cancel]

theorem cutAtByte?_position {before : List Char} (whole : text = before ++ after) :
    cutAtByte? text (position (byteLength text) after) = some (before, after) := by
  rw [whole, position_append, cutAtByte?_append]

/-- The cursor moves on by the bytes of what is taken up. -/
theorem position_add {span : List Char} (isEnd : span ++ after <:+ text) :
    position (byteLength text) (span ++ after) + byteLength span = position (byteLength text) after := by
  obtain ⟨before, rfl⟩ := isEnd
  rw [position_append, ← List.append_assoc, position_append, byteLength_append]

theorem position_cons (isEnd : c :: after <:+ text) :
    position (byteLength text) (c :: after) + c.utf8Size = position (byteLength text) after := by
  have moved := position_add (show [c] ++ after <:+ text from isEnd)
  rwa [byteLength_cons] at moved

/-- A text that cannot be taken apart at a mark does not begin with it. -/
theorem head?_ne {mark : Char} (unmarked : ∀ rest, cs = mark :: rest → False) : cs.head? ≠ some mark := by
  intro first
  cases cs <;> cases first
  exact unmarked _ rfl

/-! ## Steps -/

theorem bind_apply (m : Lexer α) (next : α → Lexer β) (text : List Char) (pos : Nat) :
    (m >>= next) text pos = match m text pos with
      | none => none
      | some (.error fault) => some (.error fault)
      | some (.ok (v, moved)) => next v text moved := by
  show Option.bind (m text pos) _ = _
  rcases m text pos with _ | _ | ⟨v, moved⟩ <;> rfl

theorem Gives.isEnd {m : Lexer α} {v : α} (gives : Gives text m cs (.ok (v, after))) : after <:+ text := by
  cases gives
  assumption

/-- What comes to the same as something else, at another place, has the same outcome. -/
theorem Gives.of_eq {m other : Lexer α} {left : List Char} {outcome : Except FormulaError (α × List Char)}
    (gives : Gives text other left outcome)
    (same : m text (position (byteLength text) cs) = other text (position (byteLength text) left)) :
    Gives text m cs outcome := by
  cases gives with
  | ok isEnd run => exact .ok isEnd (same.trans run)
  | error run => exact .error (same.trans run)

theorem Gives.bind {m : Lexer α} {next : α → Lexer β} {v : α} {outcome : Except FormulaError (β × List Char)}
    (first : Gives text m cs (.ok (v, after))) (later : Gives text (next v) after outcome) :
    Gives text (m >>= next) cs outcome := by
  cases first with
  | ok _ run => exact later.of_eq (by rw [bind_apply, run])

theorem Gives.bind_error {m : Lexer α} {fault : FormulaError} (first : Gives text m cs (.error fault))
    (next : α → Lexer β) : Gives text (m >>= next) cs (.error fault) := by
  cases first with
  | error run => exact .error (by rw [bind_apply, run])

/-- What is made of what was given. -/
theorem Gives.map {m : Lexer α} {outcome : Except FormulaError (α × List Char)} (gives : Gives text m cs outcome)
    (f : α → β) : Gives text (f <$> m) cs (outcome.map fun (v, after) => (f v, after)) := by
  have asBind : f <$> m = m >>= fun v => pure (f v) := (bind_pure_comp f m).symm
  rw [asBind]
  cases gives with
  | ok isEnd run => exact .bind (.ok isEnd run) (.ok isEnd rfl)
  | error run => exact .bind_error (.error run) _

theorem gives_throw (fault : FormulaError) : Gives (α := α) text (throw fault) cs (.error fault) := .error rfl

section AtEnd

variable (isEnd : cs <:+ text)
include isEnd

theorem gives_pure (v : α) : Gives text (pure v) cs (.ok (v, cs)) := .ok isEnd rfl

theorem gives_get : Gives text get cs (.ok (position (byteLength text) cs, cs)) := .ok isEnd rfl

theorem gives_rest : Gives text rest cs (.ok (cs, cs)) := by
  obtain ⟨before, whole⟩ := isEnd
  refine .ok ⟨before, whole⟩ ?_
  rw [rest, cutAtByte?_position whole.symm]
  rfl

theorem gives_peek : Gives text peek cs (.ok (cs.head?, cs)) := (gives_rest isEnd).map List.head?

theorem gives_peekAt (offset : Nat) : Gives text (peekAt offset) cs (.ok (cs[offset]?, cs)) :=
  (gives_rest isEnd).map (·[offset]?)

/-- What does not look at the text goes ahead, or refuses the text. -/
theorem gives_ofExcept_bind {found : Except FormulaError α} {next : α → Lexer β}
    {outcome : α → Except FormulaError (β × List Char)} (later : ∀ v, Gives text (next v) cs (outcome v)) :
    Gives text (MonadExcept.ofExcept found >>= next) cs (found >>= outcome) := by
  cases found with
  | error fault => exact (gives_throw fault).bind_error next
  | ok v => exact (gives_pure isEnd v).bind (later v)

end AtEnd

/-- A character that is looked at can be taken up. -/
theorem gives_advance (isEnd : c :: after <:+ text) : Gives text advance (c :: after) (.ok ((), after)) := by
  refine (gives_peek isEnd).bind (.ok ((List.suffix_cons c after).trans isEnd) ?_)
  rw [← position_cons isEnd]
  rfl

theorem gives_advance_pure (isEnd : c :: after <:+ text) (v : α) :
    Gives text (advance >>= fun _ => pure v) (c :: after) (.ok (v, after)) :=
  (gives_advance isEnd).bind (gives_pure (gives_advance isEnd).isEnd v)

/-- What was taken up is the text between the two places of the cursor. -/
theorem gives_since {span : List Char} (isEnd : span ++ after <:+ text) :
    Gives text (since (position (byteLength text) (span ++ after))) after (.ok (span, after)) := by
  obtain ⟨before, whole⟩ := isEnd
  have moved := position_add ⟨before, whole⟩
  refine .ok ((List.suffix_append span after).trans ⟨before, whole⟩) ?_
  have first := cutAtByte?_position whole.symm
  have second := cutAtByte?_append span after
  rw [← moved, since, first]
  simp only [Option.bind_eq_bind, Option.bind_some, Nat.add_sub_cancel_left, second]
  rfl

theorem gives_skipWhile (p : Char → Bool) (isEnd : cs <:+ text) :
    Gives text (skipWhile p) cs (.ok ((), cs.dropWhile p)) := by
  induction cs with
  | nil =>
    obtain ⟨before, whole⟩ := isEnd
    refine .ok ⟨before, whole⟩ ?_
    have cut := cutAtByte?_position whole.symm
    rw [skipWhile]
    split
    · next none => cases none.symm.trans cut
    · rfl
    · next other => cases other.symm.trans cut
  | cons c cs ih =>
    obtain ⟨before, whole⟩ := isEnd
    have cut := cutAtByte?_position whole.symm
    have left : cs <:+ text := (List.suffix_cons c cs).trans ⟨before, whole⟩
    have step : skipWhile p text (position (byteLength text) (c :: cs)) =
        if p c then skipWhile p text (position (byteLength text) cs)
        else some (.ok ((), position (byteLength text) (c :: cs))) := by
      rw [← position_cons ⟨before, whole⟩, skipWhile]
      split
      · next none => cases none.symm.trans cut
      · next other => cases other.symm.trans cut
      · next found =>
        cases found.symm.trans cut
        rfl
    by_cases taken : p c
    · rw [if_pos taken] at step
      rw [List.dropWhile_cons_of_pos taken]
      exact (ih left).of_eq step
    · rw [if_neg taken] at step
      rw [List.dropWhile_cons_of_neg taken]
      exact .ok ⟨before, whole⟩ step

/-! ## Literals -/

theorem closeText_cons (isEnd : c :: cs <:+ text) (start : Nat) (inner : String) :
    closeText start inner text (position (byteLength text) (c :: cs)) =
      if c = '"' then
        if cs.head? = some '"' then
          closeText start (inner.push '"') text (position (byteLength text) cs + '"'.utf8Size)
        else some (.ok (.text inner, position (byteLength text) cs))
      else closeText start (inner.push c) text (position (byteLength text) cs) := by
  obtain ⟨before, whole⟩ := isEnd
  have cut := cutAtByte?_position whole.symm
  rw [← position_cons ⟨before, whole⟩, closeText]
  split
  · next none => cases none.symm.trans cut
  · next other => cases other.symm.trans cut
  · next found =>
    cases found.symm.trans cut
    rfl

/-- The outcome of a text of which `inner` was taken up before. -/
def closed (start : Nat) (inner : String) : Option (List Char × List Char) → Except FormulaError (Token × List Char)
  | some (more, after) => .ok (.text (inner ++ String.ofList more), after)
  | none => .error (.parse s!"Unterminated string starting at position {start}")

theorem closed_push (start : Nat) (inner : String) (c : Char) (found : Option (List Char × List Char)) :
    closed start (inner.push c) found = closed start inner (found.map fun (more, after) => (c :: more, after)) := by
  cases found with
  | none => rfl
  | some found =>
    have pushed : inner.push c ++ String.ofList found.1 = inner ++ String.ofList (c :: found.1) := by
      rw [← String.toList_inj]
      simp
    simp only [closed, Option.map_some, pushed]

theorem gives_closeText (start : Nat) (inner : String) (isEnd : cs <:+ text) :
    Gives text (closeText start inner) cs (closed start inner (Token.scanText cs)) := by
  fun_induction Token.scanText cs generalizing inner with
  | case1 =>
    obtain ⟨before, whole⟩ := isEnd
    have cut := cutAtByte?_position whole.symm
    refine .error ?_
    rw [closeText]
    split
    · next none => cases none.symm.trans cut
    · rfl
    · next other => cases other.symm.trans cut
  | case2 rest ih =>
    have second : '"' :: rest <:+ text := (List.suffix_cons '"' _).trans isEnd
    have later := ih (inner.push '"') ((List.suffix_cons '"' rest).trans second)
    rw [closed_push] at later
    refine later.of_eq ?_
    rw [closeText_cons isEnd, if_pos rfl, if_pos (by rfl), position_cons second]
  | case3 rest notTwice =>
    refine .ok ((List.suffix_cons '"' rest).trans isEnd) ?_
    have once : rest.head? ≠ some '"' := by
      intro twice
      cases rest <;> cases twice
      exact notTwice _ rfl
    rw [closeText_cons isEnd, if_pos rfl, if_neg once, String.append_empty]
  | case4 c rest notTwice notQuote ih =>
    have later := ih (inner.push c) ((List.suffix_cons c rest).trans isEnd)
    rw [closed_push] at later
    refine later.of_eq ?_
    rw [closeText_cons isEnd, if_neg notQuote]

theorem gives_scanText (isEnd : '"' :: cs <:+ text) : Gives text scanText ('"' :: cs)
    (closed (position (byteLength text) ('"' :: cs)) "" (Token.scanText cs)) := by
  have inside := (List.suffix_cons '"' cs).trans isEnd
  exact (gives_get isEnd).bind ((gives_advance isEnd).bind (gives_closeText _ "" inside))

theorem gives_skipFraction (isEnd : cs <:+ text) :
    Gives text skipFraction cs (.ok ((), (Token.spanFraction cs).2)) := by
  refine (gives_peek isEnd).bind ?_
  fun_cases Token.spanFraction cs with
  | case1 rest =>
    have inside := (List.suffix_cons '.' rest).trans isEnd
    exact (gives_advance isEnd).bind (gives_skipWhile Char.isDigit inside)
  | case2 _ noPoint =>
    rw [if_neg (head?_ne noPoint)]
    exact gives_pure isEnd ()

theorem gives_skipSign (isEnd : cs <:+ text) : Gives text skipSign cs (.ok ((), (Token.spanSign cs).2)) := by
  refine (gives_peek isEnd).bind ?_
  fun_cases Token.spanSign cs with
  | case1 rest => exact gives_advance isEnd
  | case2 rest => exact gives_advance isEnd
  | case3 _ noPlus noMinus =>
    have other : ¬ cs.head?.any fun c => c = '+' || c = '-' := by
      cases cs with
      | nil => simp
      | cons c cs =>
        simp only [List.head?_cons, Option.any_some, Bool.or_eq_true, decide_eq_true_eq]
        rintro (rfl | rfl)
        · exact noPlus _ rfl
        · exact noMinus _ rfl
    rw [if_neg other]
    exact gives_pure isEnd ()

theorem gives_skipExponent (isEnd : cs <:+ text) :
    Gives text skipExponent cs (.ok ((), (Token.spanExponent cs).2)) := by
  refine (gives_peek isEnd).bind ?_
  cases cs with
  | nil => exact gives_pure isEnd ()
  | cons mark rest =>
    have inside := (List.suffix_cons mark rest).trans isEnd
    have isMark : ((mark :: rest).head?.any fun c => c = 'e' || c = 'E') = true ↔ mark = 'e' ∨ mark = 'E' := by
      simp
    rw [Token.spanExponent]
    by_cases marked : mark = 'e' ∨ mark = 'E'
    · rw [if_pos (isMark.2 marked), if_pos marked]
      have sign := gives_skipSign inside
      exact (gives_advance isEnd).bind (sign.bind (gives_skipWhile Char.isDigit sign.isEnd))
    · rw [if_neg (mt isMark.1 marked), if_neg marked]
      exact gives_pure isEnd ()

/-- What looks like a number is taken up in three parts, the last two of which may be missing. -/
theorem gives_scanNumber (isEnd : cs <:+ text) : Gives text scanNumber cs (Token.scanNumber cs) := by
  have whole := Token.spanNumber_append cs
  have fraction := (gives_skipWhile Char.isDigit isEnd).isEnd
  have exponent := (gives_skipFraction fraction).isEnd
  refine (gives_get isEnd).bind ((gives_skipWhile Char.isDigit isEnd).bind
    ((gives_skipFraction fraction).bind ((gives_skipExponent exponent).bind ?_)))
  have shown : Gives text (since (position (byteLength text) cs)) (Token.spanNumber cs).2
      (.ok ((Token.spanNumber cs).1, (Token.spanNumber cs).2)) := by
    have taken := gives_since (whole.symm ▸ isEnd)
    rwa [whole] at taken
  refine shown.bind ?_
  unfold Token.scanNumber
  dsimp only
  cases (Number.ofDecimalText? (Token.spanNumber cs).1).filter Float.isFinite with
  | some value => exact gives_pure shown.isEnd _
  | none => exact gives_throw _

/-! ## Words -/

theorem gives_scanWord (isEnd : cs <:+ text) :
    Gives text scanWord cs (.ok (cs.takeWhile isWordChar, cs.dropWhile isWordChar)) := by
  have whole : cs.takeWhile isWordChar ++ cs.dropWhile isWordChar = cs := List.takeWhile_append_dropWhile
  refine (gives_get isEnd).bind ((gives_skipWhile isWordChar isEnd).bind ?_)
  have taken := gives_since (whole.symm ▸ isEnd)
  rwa [whole] at taken

theorem gives_scanRange (first : Address) (shown : String) (isEnd : cs <:+ text) :
    Gives text (scanRange first shown) cs (Token.scanRange first shown cs) := by
  refine (gives_peek isEnd).bind ?_
  fun_cases Token.scanRange first shown cs with
  | case1 rest word shaped =>
    have colon := gives_advance isEnd
    have second := gives_scanWord colon.isEnd
    refine colon.bind (second.bind ?_)
    rw [if_pos shaped]
    exact gives_ofExcept_bind second.isEnd fun last => gives_pure second.isEnd _
  | case2 rest word unshaped =>
    have colon := gives_advance isEnd
    have second := gives_scanWord colon.isEnd
    refine colon.bind (second.bind ?_)
    rw [if_neg unshaped]
    exact gives_throw _
  | case3 _ noColon =>
    rw [if_neg (head?_ne noColon)]
    exact gives_pure isEnd _

theorem gives_scanNameOrAddress (isEnd : cs <:+ text) :
    Gives text scanNameOrAddress cs (Token.scanWord cs) := by
  have word := gives_scanWord isEnd
  refine word.bind ((gives_peek word.isEnd).bind ?_)
  unfold Token.scanWord
  dsimp only
  split
  · exact gives_pure word.isEnd _
  split
  · exact gives_pure word.isEnd _
  split
  · exact gives_pure word.isEnd _
  split
  · exact gives_ofExcept_bind word.isEnd fun first => gives_scanRange first _ word.isEnd
  · exact gives_pure word.isEnd _

/-! ## References to other pages -/

theorem gives_scanUntil {mark : Char} {before : List Char} (isEnd : cs <:+ text)
    (found : Text.cutAt? mark cs = some (before, after)) :
    Gives text (scanUntil mark) cs (.ok (some before, after)) := by
  obtain ⟨rfl, -⟩ := Text.cutAt?_eq_some found
  have left : mark :: after <:+ text := (List.suffix_append before _).trans isEnd
  refine (gives_rest isEnd).bind (.ok ((List.suffix_cons mark after).trans left) ?_)
  rw [found, ← position_cons left, ← position_add isEnd]
  rfl

theorem gives_scanUntil_none {mark : Char} (isEnd : cs <:+ text) (unmarked : Text.cutAt? mark cs = none) :
    Gives text (scanUntil mark) cs (.ok (none, cs)) := by
  refine (gives_rest isEnd).bind ?_
  rw [unmarked]
  exact gives_pure isEnd none

theorem gives_scanTarget (page : PageRef) (isEnd : cs <:+ text) :
    Gives text (scanTarget page) cs (Token.scanTarget page cs) := by
  refine (gives_peek isEnd).bind ?_
  fun_cases Token.scanTarget page cs with
  | case1 rest => 
    have colon := gives_advance isEnd
    refine colon.bind ?_
    have word := gives_scanNameOrAddress colon.isEnd
    cases scanned : Token.scanWord rest with
    | error fault =>
      rw [scanned] at word
      exact word.bind_error _
    | ok found =>
      obtain ⟨token, after⟩ := found
      rw [scanned] at word
      refine word.bind ?_
      cases token
      case cell => exact gives_pure word.isEnd _
      case range => exact gives_pure word.isEnd _
      all_goals exact gives_throw _
  | case2 _ noColon =>
    rw [if_neg (head?_ne noColon)]
    exact gives_pure isEnd _

theorem gives_scanIdentifier (label : String) (isEnd : cs <:+ text) :
    Gives text (scanIdentifier label) cs (Token.scanIdentifier label cs) := by
  refine (gives_peek isEnd).bind ?_
  fun_cases Token.scanIdentifier label cs with
  | case1 rest unmarked =>
    have opened := gives_advance isEnd
    exact opened.bind ((gives_scanUntil_none opened.isEnd unmarked).bind (gives_throw _))
  | case2 rest identifier after found blank =>
    have opened := gives_advance isEnd
    refine opened.bind ((gives_scanUntil opened.isEnd found).bind ?_)
    dsimp only
    rw [if_pos blank]
    exact gives_throw _
  | case3 rest identifier after found nonblank =>
    have opened := gives_advance isEnd
    have inside := gives_scanUntil opened.isEnd found
    refine opened.bind (inside.bind ?_)
    dsimp only
    rw [if_neg nonblank]
    exact gives_scanTarget _ inside.isEnd
  | case4 _ unopened =>
    rw [if_neg (head?_ne unopened)]
    exact gives_throw _

theorem gives_scanPage (isEnd : '@' :: cs <:+ text) : Gives text scanPage ('@' :: cs)
    (Token.scanPage (position (byteLength text) ('@' :: cs)) cs) := by
  have mark := gives_advance isEnd
  refine (gives_get isEnd).bind (mark.bind ((gives_peek mark.isEnd).bind ?_))
  fun_cases Token.scanPage _ cs with
  | case1 rest unmarked =>
    have opened := gives_advance mark.isEnd
    exact opened.bind ((gives_scanUntil_none opened.isEnd unmarked).bind (gives_throw _))
  | case2 rest label after found =>
    have opened := gives_advance mark.isEnd
    have inside := gives_scanUntil opened.isEnd found
    exact opened.bind (inside.bind (gives_scanIdentifier _ inside.isEnd))
  | case3 _ unopened =>
    rw [if_neg (head?_ne unopened)]
    exact gives_throw _

/-! ## Tokens -/

theorem gives_scanLess (isEnd : '<' :: cs <:+ text) :
    Gives text scanLess ('<' :: cs) (.ok (Token.scanLess cs)) := by
  have mark := gives_advance isEnd
  refine mark.bind ((gives_peek mark.isEnd).bind ?_)
  fun_cases Token.scanLess cs with
  | case1 rest => exact gives_advance_pure mark.isEnd _
  | case2 rest => exact gives_advance_pure mark.isEnd _
  | case3 _ noEqual noGreater =>
    split
    · next first => exact absurd first (head?_ne noEqual)
    · next first => exact absurd first (head?_ne noGreater)
    · exact gives_pure mark.isEnd _

theorem gives_scanGreater (isEnd : '>' :: cs <:+ text) :
    Gives text scanGreater ('>' :: cs) (.ok (Token.scanGreater cs)) := by
  have mark := gives_advance isEnd
  refine mark.bind ((gives_peek mark.isEnd).bind ?_)
  fun_cases Token.scanGreater cs with
  | case1 rest => exact gives_advance_pure mark.isEnd _
  | case2 _ noEqual =>
    split
    · next first => exact absurd first (head?_ne noEqual)
    · exact gives_pure mark.isEnd _

theorem gives_scanFrom (isEnd : c :: cs <:+ text) :
    Gives text (scanFrom c) (c :: cs) (Token.scan (byteLength text) c cs) := by
  unfold scanFrom Token.scan
  cases Token.single? c with
  | some token => exact gives_advance_pure isEnd token
  | none =>
    dsimp only
    split
    · next isLess => subst isLess; exact gives_scanLess isEnd
    split
    · next isGreater => subst isGreater; exact gives_scanGreater isEnd
    split
    · next isQuote =>
      subst isQuote
      have closes := gives_scanText isEnd
      cases found : Token.scanText cs with
      | none => rwa [found] at closes
      | some _ => rwa [found, closed, String.empty_append] at closes
    split
    · next isAt => subst isAt; exact gives_scanPage isEnd
    have second : (c :: cs)[1]? = cs.head? := by rw [List.getElem?_cons_succ, List.head?_eq_getElem?]
    refine (gives_peekAt isEnd 1).bind ?_
    rw [second]
    show Gives text (if Token.startsNumber c cs then _ else _) _ _
    split
    · exact gives_scanNumber isEnd
    split
    · exact gives_scanNameOrAddress isEnd
    · exact (gives_get isEnd).bind (gives_throw _)

theorem gives_tokenize {rounds : Nat} (isEnd : cs <:+ text) (enough : cs.length < rounds) :
    Gives text (tokenize rounds) cs
      ((Token.scanAll (byteLength text) cs).map fun tokens => (tokens.map some ++ [none], [])) := by
  induction rounds generalizing cs with
  | zero => exact absurd enough (Nat.not_lt_zero _)
  | succ rounds ih =>
    have blanks := gives_skipWhile Text.isBlank isEnd
    fun_cases Token.scanAll (byteLength text) cs with
    | case1 none =>
      rw [none] at blanks
      have last : Gives text scanToken cs (.ok (.none, [])) :=
        blanks.bind ((gives_peek blanks.isEnd).bind (gives_pure blanks.isEnd _))
      exact last.bind (gives_pure blanks.isEnd _)
    | case2 c rest start fault failed =>
      rw [start] at blanks
      have first := (gives_scanFrom blanks.isEnd).map some
      rw [failed] at first
      have next : Gives text scanToken cs (.error fault) := blanks.bind ((gives_peek blanks.isEnd).bind first)
      exact next.bind_error _
    | case3 c rest start token after found =>
      rw [start] at blanks
      have first := (gives_scanFrom blanks.isEnd).map some
      rw [found] at first
      have next : Gives text scanToken cs (.ok (some token, after)) :=
        blanks.bind ((gives_peek blanks.isEnd).bind first)
      -- A token takes up at least the character that it begins with.
      have shorter : after.length < rounds := by
        have tokenLe := (Token.scan_suffix found).length_le
        have blanksLe := (List.dropWhile_suffix Text.isBlank (l := cs)).length_le
        rw [start, List.length_cons] at blanksLe
        omega
      have others := ih next.isEnd shorter
      refine next.bind ?_
      cases later : Token.scanAll (byteLength text) after with
      | error fault =>
        rw [later] at others
        exact others.bind_error _
      | ok tokens =>
        rw [later] at others
        exact others.bind (gives_pure others.isEnd _)

/-- The cursor goes over the whole text, and gives its tokens and then a mark for its end. -/
theorem tokenize_eq {rounds : Nat} (text : String) (enough : text.toList.length < rounds) :
    tokenize rounds text.toList 0 = some ((Token.ofText text).map fun tokens =>
      (tokens.map some ++ [none], byteLength text.toList)) := by
  have atStart : position (byteLength text.toList) text.toList = 0 := Nat.sub_self _
  have atEnd : position (byteLength text.toList) [] = byteLength text.toList := Nat.sub_zero _
  have gives := gives_tokenize (List.suffix_refl text.toList) enough
  rw [Token.ofText]
  cases scanned : Token.scanAll (byteLength text.toList) text.toList with
  | error fault =>
    rw [scanned] at gives
    cases gives with
    | error run => rwa [atStart] at run
  | ok tokens =>
    rw [scanned] at gives
    cases gives with
    | ok _ run => rwa [atStart, atEnd] at run

end PageCalc.Lexer
