import PageCalc.Proofs.Grid.Editing
import PageCalc.Proofs.Storage.Form

/-!
# Sheets with a history

A sheet is made, changed by single operations, and read from a stored form. Whatever is done to it, and
with whatever arguments, what is left in a cell is what was typed there last, if that was not refused. The
grid holds every cell that is not blank and is never too large, and only a new sheet has a smaller one.
-/

namespace PageCalc

/-! ## Outcomes -/

theorem mapError_eq_ok_iff {ε ε' α : Type} {f : ε → ε'} {outcome : Except ε α} {v : α} :
    outcome.mapError f = .ok v ↔ outcome = .ok v := by
  cases outcome with
  | error => exact iff_of_false nofun nofun
  | ok => simp [Except.mapError]

theorem getD_ite {p : Prop} [Decidable p] {raw earlier : String} :
    (if p then some raw else none).getD earlier = if p then raw else earlier := by
  split <;> rfl

namespace Sheet

variable {s t : Sheet} {a : Address} {raw : String} {line : List Char} {lines : List (List Char × Nat)}

/-! ## Lines of a stored sheet -/

/-- The cell that a line types into and what it types, unless it is malformed. -/
def lineTyping? (line : List Char) : Option (Address × String) :=
  match Text.cutAt? '=' line with
  | none => none
  | some (address, text) =>
    match Address.ofText (String.ofList address), Escape.decode text with
    | .ok a, .ok cs => some (a, String.ofList cs)
    | _, _ => none

/-- What a line leaves in a cell, if it types into it. -/
def lineLeaves? (line : List Char) (a : Address) : Option String :=
  (lineTyping? line).bind fun typing => if a = typing.1 then some typing.2 else none

theorem inBounds_of_lineTyping? {typing : Address × String} (isTyping : lineTyping? line = some typing) :
    typing.1.InBounds := by
  unfold lineTyping? at isTyping
  split at isTyping
  · cases isTyping
  · split at isTyping
    · next read _ =>
      cases isTyping
      exact Address.inBounds_of_ofText read
    · cases isTyping

theorem setLine_eq_ok_iff : s.setLine line = .ok t ↔
    ∃ typing, lineTyping? line = some typing ∧ s.set typing.1 typing.2 = .ok t := by
  unfold setLine lineTyping?
  cases Text.cutAt? '=' line with
  | none => exact iff_of_false nofun fun ⟨_, isTyping, _⟩ => by cases isTyping
  | some parts =>
    obtain ⟨address, text⟩ := parts
    dsimp only
    cases Address.ofText (String.ofList address) with
    | error => exact iff_of_false nofun fun ⟨_, isTyping, _⟩ => by cases isTyping
    | ok a =>
      cases Escape.decode text with
      | error => exact iff_of_false nofun fun ⟨_, isTyping, _⟩ => by cases isTyping
      | ok cs =>
        refine mapError_eq_ok_iff.trans ⟨fun done => ⟨_, rfl, done⟩, ?_⟩
        rintro ⟨_, isTyping, done⟩
        cases isTyping
        exact done

/-- Of the lines that type into a cell, the last one counts. -/
theorem get_setLines (done : s.setLines lines = .ok t) (a : Address) :
    t.get a = (lines.reverse.findSome? fun line => lineLeaves? line.1 a).getD (s.get a) := by
  induction lines generalizing s with
  | nil =>
    cases done
    rfl
  | cons line lines ih =>
    obtain ⟨line, number⟩ := line
    rw [setLines, List.foldlM_cons] at done
    dsimp only at done
    cases first : s.setLine line with
    | error => rw [first] at done; cases done
    | ok s' =>
      rw [first] at done
      obtain ⟨⟨b, raw⟩, isTyping, typed⟩ := setLine_eq_ok_iff.1 first
      have left : s'.get a = (lineLeaves? line a).getD (s.get a) := by
        rw [(typed_of_set typed).get, lineLeaves?, isTyping, Option.bind_some, getD_ite]
      rw [ih done, left, List.reverse_cons, List.findSome?_append, List.findSome?_singleton]
      cases lines.reverse.findSome? fun line => lineLeaves? line.1 a <;> rfl

theorem setLines_isOk_iff : (∃ t, s.setLines lines = .ok t) ↔
    ∀ line ∈ lines, (lineTyping? line.1).isSome := by
  induction lines generalizing s with
  | nil => exact iff_of_true ⟨s, rfl⟩ (List.forall_mem_nil _)
  | cons line lines ih =>
    obtain ⟨line, number⟩ := line
    rw [List.forall_mem_cons, setLines, List.foldlM_cons]
    dsimp only
    cases first : s.setLine line with
    | error fault =>
      constructor
      · rintro ⟨_, failed⟩
        cases failed
      · rintro ⟨isSome, -⟩
        obtain ⟨typing, isTyping⟩ := Option.isSome_iff_exists.1 isSome
        obtain ⟨t, done⟩ := s.exists_set_of_inBounds (inBounds_of_lineTyping? isTyping) typing.2
        rw [setLine_eq_ok_iff.2 ⟨typing, isTyping, done⟩] at first
        cases first
    | ok s' =>
      obtain ⟨typing, isTyping, -⟩ := setLine_eq_ok_iff.1 first
      have isSome : (lineTyping? line).isSome := Option.isSome_iff_exists.2 ⟨typing, isTyping⟩
      exact ih.trans (and_iff_right isSome).symm

/-! ## Stored sheets -/

theorem readHeader_eq_ok {number : Nat} (read : readHeader line number = .ok s) :
    ∃ rows columns, s = withSize rows columns := by
  unfold readHeader at read
  split at read
  · cases read
  · next rest _ =>
    rw [mapError_eq_ok_iff] at read
    unfold ofHeaderFields at read
    cases sizes : (Text.words rest).foldlM readHeaderField {} with
    | error => rw [sizes] at read; cases read
    | ok sizes' =>
      rw [sizes] at read
      dsimp only [bind, Except.bind] at read
      split at read
      · cases read
        exact ⟨_, _, rfl⟩
      · cases read

theorem get_withSize (rows columns : Nat) (a : Address) : (withSize rows columns).get a = "" := by
  simp [get, withSize]

/-- A text that is read as a sheet: a header and lines that type into cells. -/
def Loadable (text : String) : Prop :=
  ∃ header lines, numberedLines text.toList = header :: lines ∧
    (∃ s, readHeader header.1 header.2 = .ok s) ∧ ∀ line ∈ lines, (lineTyping? line.1).isSome

theorem ofForm_isOk_iff {text : String} : (∃ t, ofForm text = .ok t) ↔ Loadable text := by
  unfold ofForm Loadable
  cases numberedLines text.toList with
  | nil => exact iff_of_false nofun nofun
  | cons header lines =>
    simp only [List.cons.injEq, existsAndEq, true_and]
    cases readHeader header.1 header.2 with
    | error => exact iff_of_false nofun nofun
    | ok s => exact setLines_isOk_iff.trans (and_iff_right ⟨s, rfl⟩).symm

/-- What a text that is read as a sheet leaves in a cell. The header types into no cell. -/
def textLeaves (text : String) (a : Address) : String :=
  ((numberedLines text.toList).tail.reverse.findSome? fun line => lineLeaves? line.1 a).getD ""

theorem get_ofForm {text : String} (loaded : ofForm text = .ok t) (a : Address) :
    t.get a = textLeaves text a := by
  unfold ofForm at loaded
  unfold textLeaves
  cases isText : numberedLines text.toList with
  | nil => rw [isText] at loaded; cases loaded
  | cons header lines =>
    rw [isText] at loaded
    dsimp only at loaded
    cases read : readHeader header.1 header.2 with
    | error => rw [read] at loaded; cases loaded
    | ok s =>
      rw [read] at loaded
      obtain ⟨rows, columns, rfl⟩ := readHeader_eq_ok read
      rw [get_setLines loaded, get_withSize, List.tail_cons]

/-! ## Actions -/

/-- What can be done to a sheet. One that is new or loaded takes the place of the sheet. -/
inductive Action where
  | new
  | withSize (rows columns : Nat)
  | ensureSize (rows columns : Nat)
  | set (a : Address) (raw : String)
  | setText (address raw : String)
  | clear (a : Address)
  | clearText (address : String)
  | load (text : String)

/-- Why an action is refused. -/
inductive Refusal where
  | grid (error : GridError)
  | storage (error : StorageError)

def perform (sheet : Sheet) : Action → Except Refusal Sheet
  | .new => .ok empty
  | .withSize rows columns => .ok (withSize rows columns)
  | .ensureSize rows columns => .ok (sheet.ensureSize rows columns)
  | .set a raw => (sheet.set a raw).mapError .grid
  | .setText address raw => (Address.ofText address >>= fun a => sheet.set a raw).mapError .grid
  | .clear a => .ok (sheet.clear a)
  | .clearText address => ((Address.ofText address).map sheet.clear).mapError .grid
  | .load text => (ofForm text).mapError .storage

namespace Action

/-- An action that changes the sheet there is, rather than putting another one in its place. -/
def Mutates : Action → Prop
  | .new | .withSize .. | .load _ => False
  | _ => True

/-- An action that is not refused. It does not matter what the sheet is like. -/
def Permitted : Action → Prop
  | .set a _ => a.InBounds
  | .setText address _ | .clearText address => ∃ a, Address.Spells address.toList a
  | .load text => Loadable text
  | _ => True

/-- What an action leaves in a cell, if it is not refused and concerns the cell at all. -/
def leaves? (a : Address) : Action → Option String
  | .new | .withSize .. => some ""
  | .ensureSize .. => none
  | .set b raw => if a = b ∧ b.InBounds then some raw else none
  | .setText address raw => if Address.ofText address = .ok a then some raw else none
  | .clear b => if a = b then some "" else none
  | .clearText address => if Address.ofText address = .ok a then some "" else none
  | .load text =>
    match ofForm text with
    | .ok _ => some (textLeaves text a)
    | .error _ => none

end Action

/-! ## One action -/

variable {action : Action} {address : String}

theorem perform_setText_eq_ok_iff : s.perform (.setText address raw) = .ok t ↔
    ∃ b, Address.ofText address = .ok b ∧ s.set b raw = .ok t := by
  rw [perform, mapError_eq_ok_iff]
  cases Address.ofText address with
  | error => exact iff_of_false nofun nofun
  | ok b => simp [bind, Except.bind]

theorem perform_clearText_eq_ok_iff : s.perform (.clearText address) = .ok t ↔
    ∃ b, Address.ofText address = .ok b ∧ s.clear b = t := by
  rw [perform, mapError_eq_ok_iff]
  cases Address.ofText address with
  | error => exact iff_of_false nofun nofun
  | ok b => simp [Except.map]

/-- An address that is read lies in the largest grid, so what is typed there is not refused any more. -/
theorem exists_perform_iff : (∃ t, s.perform action = .ok t) ↔ action.Permitted := by
  cases action with
  | new | withSize | ensureSize | clear => exact iff_of_true ⟨_, rfl⟩ trivial
  | set a raw =>
    simp only [perform, mapError_eq_ok_iff]
    exact ⟨fun ⟨_, done⟩ => inBounds_of_set done, fun inBounds => s.exists_set_of_inBounds inBounds raw⟩
  | setText address raw =>
    simp only [perform_setText_eq_ok_iff, Action.Permitted, ← Address.ofText_eq_ok_iff]
    constructor
    · rintro ⟨_, b, read, _⟩
      exact ⟨b, read⟩
    · rintro ⟨b, read⟩
      obtain ⟨t, typed⟩ := s.exists_set_of_inBounds (Address.inBounds_of_ofText read) raw
      exact ⟨t, b, read, typed⟩
  | clearText address =>
    simp only [perform_clearText_eq_ok_iff, Action.Permitted, ← Address.ofText_eq_ok_iff]
    exact ⟨fun ⟨_, b, read, _⟩ => ⟨b, read⟩, fun ⟨b, read⟩ => ⟨_, b, read, rfl⟩⟩
  | load text =>
    simp only [perform, mapError_eq_ok_iff]
    exact ofForm_isOk_iff

theorem get_perform (done : s.perform action = .ok t) (a : Address) :
    t.get a = (action.leaves? a).getD (s.get a) := by
  cases action with
  | new =>
    cases done
    exact get_withSize 0 0 a
  | withSize rows columns =>
    cases done
    exact get_withSize rows columns a
  | ensureSize =>
    cases done
    rfl
  | set b raw =>
    have typed := mapError_eq_ok_iff.1 done
    rw [(typed_of_set typed).get, Action.leaves?, getD_ite]
    exact if_congr (and_iff_left (inBounds_of_set typed)).symm rfl rfl
  | setText address raw =>
    obtain ⟨b, read, typed⟩ := perform_setText_eq_ok_iff.1 done
    rw [(typed_of_set typed).get, Action.leaves?, getD_ite, read]
    simp only [Except.ok.injEq, eq_comm (a := b)]
  | clear b =>
    cases done
    rw [get_clear, Action.leaves?, getD_ite]
  | clearText address =>
    obtain ⟨b, read, rfl⟩ := perform_clearText_eq_ok_iff.1 done
    rw [get_clear, Action.leaves?, getD_ite, read]
    simp only [Except.ok.injEq, eq_comm (a := b)]
  | load text =>
    have loaded := mapError_eq_ok_iff.1 done
    rw [get_ofForm loaded, Action.leaves?, loaded]
    rfl

theorem Action.leaves?_of_not_permitted (refused : ¬ action.Permitted) (a : Address) :
    action.leaves? a = none := by
  cases action with
  | new | withSize | ensureSize | clear => exact absurd trivial refused
  | set b raw => exact if_neg fun concerned => refused concerned.2
  | setText address raw => exact if_neg fun read => refused ⟨a, Address.spells_of_ofText read⟩
  | clearText address => exact if_neg fun read => refused ⟨a, Address.spells_of_ofText read⟩
  | load text =>
    cases loaded : ofForm text with
    | error => rw [leaves?, loaded]
    | ok t => exact absurd (ofForm_isOk_iff.1 ⟨t, loaded⟩) refused

theorem extents_of_perform (mutates : action.Mutates) (done : s.perform action = .ok t) :
    s.rows ≤ t.rows ∧ s.columns ≤ t.columns := by
  have ofTyped {a : Address} {raw : String} (typed : s.set a raw = .ok t) :
      s.rows ≤ t.rows ∧ s.columns ≤ t.columns :=
    ⟨(typed_of_set typed).rows_le, (typed_of_set typed).columns_le⟩
  cases action with
  | new | withSize | load => cases mutates
  | ensureSize =>
    cases done
    exact ⟨Nat.le_max_left .., Nat.le_max_left ..⟩
  | set => exact ofTyped (mapError_eq_ok_iff.1 done)
  | setText =>
    obtain ⟨_, _, typed⟩ := perform_setText_eq_ok_iff.1 done
    exact ofTyped typed
  | clear =>
    cases done
    exact ⟨Nat.le_refl _, Nat.le_refl _⟩
  | clearText =>
    obtain ⟨_, _, rfl⟩ := perform_clearText_eq_ok_iff.1 done
    exact ⟨Nat.le_refl _, Nat.le_refl _⟩

/-! ## Histories -/

/-- The sheet after a history, the last action of which stands first. It is blank in the beginning, and a
refused action leaves it as it is. -/
def after : List Action → Sheet
  | [] => empty
  | action :: earlier =>
    match (after earlier).perform action with
    | .ok sheet => sheet
    | .error _ => after earlier

variable {history : List Action}

theorem perform_after (permitted : action.Permitted) :
    (after history).perform action = .ok (after (action :: history)) := by
  obtain ⟨t, done⟩ := (exists_perform_iff (s := after history)).2 permitted
  rw [after, done]

theorem after_of_not_permitted (refused : ¬ action.Permitted) :
    after (action :: history) = after history := by
  rw [after]
  split
  · next t done => exact absurd (exists_perform_iff.1 ⟨t, done⟩) refused
  · rfl

/-- The last action that leaves something in a cell counts. -/
theorem get_after (history : List Action) (a : Address) :
    (after history).get a = (history.findSome? (·.leaves? a)).getD "" := by
  induction history with
  | nil => exact get_withSize 0 0 a
  | cons action earlier ih =>
    rw [List.findSome?_cons]
    by_cases permitted : action.Permitted
    · rw [get_perform (perform_after permitted), ih]
      cases action.leaves? a <;> rfl
    · rw [after_of_not_permitted permitted, Action.leaves?_of_not_permitted permitted, ih]

end Sheet

/-! ## Step by step -/

namespace RawSheet

open Sheet (Action Refusal)

variable {line : List Char} {lines : List (List Char × Nat)}

theorem makes_setLine (s : Sheet) (line : List Char) : Makes (setLine line) s (s.setLine line) := by
  unfold setLine Sheet.setLine
  cases Text.cutAt? '=' line with
  | none => rfl
  | some parts =>
    obtain ⟨address, text⟩ := parts
    dsimp only
    cases Address.ofText (String.ofList address) with
    | error fault => rfl
    | ok a =>
      cases Escape.decode text with
      | error fault => rfl
      | ok cs => exact (makes_setAt s a (String.ofList cs)).adapt LineError.address

/-- Lines that are all taken in make of a sheet what they are meant to. If one is refused, the lines before it have
been taken in. -/
theorem run_setLines (s : Sheet) (lines : List (List Char × Nat)) :
    ∃ left, (setLines lines).run.run s.raw = ((s.setLines lines).map fun _ => (), left) ∧
      ∀ t, s.setLines lines = .ok t → left = t.raw := by
  induction lines generalizing s with
  | nil =>
    refine ⟨s.raw, rfl, ?_⟩
    rintro _ ⟨⟩
    rfl
  | cons line lines ih =>
    obtain ⟨line, number⟩ := line
    have first := (makes_setLine s line).adapt (StorageError.malformedLine number)
    have whole : (setLines ((line, number) :: lines)).run.run s.raw = _ :=
      run_bind (ExceptT.adapt (StorageError.malformedLine number) (setLine line)) (fun _ => setLines lines) s.raw
    rw [whole, Sheet.setLines, List.foldlM_cons]
    dsimp only
    cases done : (s.setLine line).mapError (StorageError.malformedLine number) with
    | error fault =>
      rw [done] at first
      refine ⟨s.raw, ?_, fun t failed => by cases failed⟩
      rw [first.run_error]
      rfl
    | ok s' =>
      rw [done] at first
      obtain ⟨left, run, isLeft⟩ := ih s'
      refine ⟨left, ?_, isLeft⟩
      rw [first.run_ok]
      exact run

/-- A text is read as the same sheet step by step; of one that is refused nothing is left. -/
theorem ofForm_eq (text : String) : ofForm text = (Sheet.ofForm text).map Sheet.raw := by
  unfold ofForm Sheet.ofForm
  cases Sheet.numberedLines text.toList with
  | nil => rfl
  | cons header lines =>
    dsimp only
    cases Sheet.readHeader header.1 header.2 with
    | error fault => rfl
    | ok s =>
      obtain ⟨left, run, isLeft⟩ := run_setLines s lines
      simp only [bind, Except.bind, run]
      cases done : s.setLines lines with
      | error fault => rfl
      | ok t =>
        rw [isLeft t done]
        rfl

def perform : Action → Edit Refusal Unit
  | .new => MonadStateOf.set empty
  | .withSize rows columns => MonadStateOf.set (withSize rows columns)
  | .ensureSize rows columns => ensureSize rows columns
  | .set a raw => ExceptT.adapt Refusal.grid (setAt a raw)
  | .setText address raw => ExceptT.adapt Refusal.grid (set address raw)
  | .clear a => clearAt a
  | .clearText address => ExceptT.adapt Refusal.grid (clear address)
  | .load text =>
    match ofForm text with
    | .ok sheet => MonadStateOf.set sheet
    | .error fault => throw (.storage fault)

theorem makes_perform (s : Sheet) (action : Action) : Makes (perform action) s (s.perform action) := by
  cases action with
  | new | withSize => rfl
  | ensureSize rows columns => exact makes_ensureSize s rows columns
  | clear a => exact makes_clearAt s a
  | set a raw => exact (makes_setAt s a raw).adapt Refusal.grid
  | setText address raw => exact (makes_set s address raw).adapt Refusal.grid
  | clearText address => exact (makes_clear s address).adapt Refusal.grid
  | load text =>
    rw [perform, ofForm_eq, Sheet.perform]
    cases Sheet.ofForm text <;> rfl

/-- What a history leaves behind, the last action of which stands first, if each is carried out step by step and as
far as it goes. -/
def after : List Action → RawSheet
  | [] => empty
  | action :: earlier => ((perform action).run.run (after earlier)).2

theorem after_eq (history : List Action) : after history = (Sheet.after history).raw := by
  induction history with
  | nil => rfl
  | cons action earlier ih =>
    have makes := makes_perform (Sheet.after earlier) action
    rw [after, ih, Sheet.after]
    cases done : (Sheet.after earlier).perform action with
    | ok t => exact congrArg Prod.snd (done ▸ makes).run_ok
    | error refusal => exact congrArg Prod.snd (done ▸ makes).run_error

end RawSheet

namespace Sheet

/-- Whatever was done to a sheet, and with whatever arguments: its grid is not too large, it holds no empty
input and none outside its grid, the check approves of it, and a cell holds what was left there last. An action is
refused for its arguments only, and then every step of it leaves everything as it was; no action that changes the
sheet makes the grid smaller. -/
theorem after_exact (history : List Action) :
    ((after history).rows ≤ maxRows ∧ (after history).columns ≤ maxColumns) ∧
    (∀ (a : Address) (raw : String), (after history).inputs[a]? = some raw →
      raw ≠ "" ∧ a.row < (after history).rows ∧ a.column < (after history).columns) ∧
    RawSheet.after history = (after history).raw ∧ (RawSheet.after history).validate = .ok () ∧
    (∀ a, (after history).get a = (history.findSome? (·.leaves? a)).getD "") ∧
    (∀ action : Action, action.Mutates → (after history).rows ≤ (after (action :: history)).rows ∧
      (after history).columns ≤ (after (action :: history)).columns) ∧
    (∀ action : Action, action.Permitted ↔
      (after history).perform action = .ok (after (action :: history))) ∧
    (∀ action : Action, ¬ action.Permitted → after (action :: history) = after history ∧
      ∃ refusal, (after history).perform action = .error refusal ∧
        (RawSheet.perform action).run.run (RawSheet.after history) = (.error refusal, RawSheet.after history)) := by
  have isRaw := RawSheet.after_eq history
  refine ⟨⟨(after history).rows_le, (after history).columns_le⟩, fun a raw found =>
    ⟨(after history).nonempty a raw found, (after history).inside a raw found⟩, isRaw,
    isRaw ▸ RawSheet.validate_raw _, get_after history, fun action mutates => ?_,
    fun action => ⟨perform_after, fun done => exists_perform_iff.1 ⟨_, done⟩⟩, fun action refused =>
    ⟨after_of_not_permitted refused, ?_⟩⟩
  · by_cases permitted : action.Permitted
    · exact extents_of_perform mutates (perform_after permitted)
    · rw [after_of_not_permitted permitted]
      exact ⟨Nat.le_refl _, Nat.le_refl _⟩
  · have makes := RawSheet.makes_perform (after history) action
    cases done : (after history).perform action with
    | ok t => exact absurd (exists_perform_iff.1 ⟨t, done⟩) refused
    | error refusal =>
      rw [done] at makes
      exact ⟨refusal, rfl, isRaw ▸ makes⟩

example : (after [.set ⟨1048576, 1⟩ "z", .clear ⟨0, 0⟩, .load "# sheetlink rows=0 cols=0\nA1=x\nB2=y",
    .setText "c3" "w"]).get ⟨1, 1⟩ = "y" := by decide +kernel

end Sheet
end PageCalc
