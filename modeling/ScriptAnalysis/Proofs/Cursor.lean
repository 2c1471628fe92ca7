import Mathlib
import ScriptAnalysis.Proofs.RoundTrip
import ScriptAnalysis.Script.Cursor

/-!
This module contains what can be observed of a cursor while it is moved by any calls. Every call is
a number of single steps, so it is enough to say what one step does: `Step` lists the five things
that can happen, and the laws of runs are proved from it by induction.
-/

namespace ScriptAnalysis

namespace Cursor

inductive Call where
  | next
  | nth (k : Nat)
deriving DecidableEq

def Call.steps : Call → Nat
  | next => 1
  | nth k => k + 1

def call (cursor : Cursor) : Call → Option Item × Cursor
  | .next => cursor.next
  | .nth k => cursor.nth k

def run (cursor : Cursor) (calls : List Call) : Cursor :=
  calls.foldl (fun cursor call => (cursor.call call).2) cursor

def after (steps : Nat) (cursor : Cursor) : Cursor :=
  match steps with
  | 0 => cursor
  | steps + 1 => cursor.next.2.after steps

def passed (steps : Nat) (cursor : Cursor) : List Item :=
  match steps with
  | 0 => []
  | steps + 1 => cursor.next.1.toList ++ cursor.next.2.passed steps

/--
The items of all steps of the calls, whether they were returned or skipped on the way.
-/
def passedBy (cursor : Cursor) : List Call → List Item
  | [] => []
  | call :: calls => cursor.passed call.steps ++ (cursor.call call).2.passedBy calls

inductive Step : Cursor → Option Item → Cursor → Prop where
  | finished {script : List UInt8} {offset count : Nat}
    : Step ⟨script, [], offset, count, .reading⟩ none ⟨script, [], offset, count, .reading⟩
  | decoded {script rest tail : List UInt8} {offset count : Nat} {ins : Instruction}
      (hfits : ins.Fits) (hrest : rest = ins.bytes ++ tail)
    : Step ⟨script, rest, offset, count, .reading⟩ (some (.ok ins))
        ⟨script, tail, offset + ins.size, count + 1, .reading⟩
  | failed {script rest : List UInt8} {byte : UInt8} {offset count : Nat} {fault : PushFault}
      (hdec : Instruction.decode ⟨byte⟩ rest = .error fault)
    : Step ⟨script, byte :: rest, offset, count, .reading⟩
        (some (.error (.malformedPush ⟨byte⟩ offset fault)))
        ⟨script, byte :: rest, offset, count, .stopped (.malformedPush ⟨byte⟩ offset fault)⟩
  | refused {script rest : List UInt8} {offset count : Nat} {error : ScriptError}
    : Step ⟨script, rest, offset, count, .refused error⟩ (some (.error error))
        ⟨script, rest, offset, count, .stopped error⟩
  | stopped {script rest : List UInt8} {offset count : Nat} {error : ScriptError}
    : Step ⟨script, rest, offset, count, .stopped error⟩ none
        ⟨script, rest, offset, count, .stopped error⟩

theorem step_next (cursor : Cursor) : Step cursor cursor.next.1 cursor.next.2 := by
  rcases cursor with ⟨script, rest, offset, count, progress⟩
  cases progress with
  | stopped error => exact .stopped
  | refused error => exact .refused
  | reading =>
    cases rest with
    | nil => exact .finished
    | cons byte rest =>
      cases hdec : Instruction.decode ⟨byte⟩ rest with
      | error fault =>
        simp only [next, hdec]
        exact .failed hdec
      | ok result =>
        obtain ⟨hfits, hbytes⟩ := Instruction.decode_eq_ok_iff.mp hdec
        simp only [next, hdec]
        exact .decoded hfits hbytes.symm

def Spent (cursor : Cursor) : Prop :=
  cursor.next = (none, cursor)

section Step

variable {cursor cursor' : Cursor} {answer : Option Item}

theorem Step.spent_of_none (h : Step cursor none cursor') : cursor'.Spent ∧ cursor' = cursor := by
  cases h with
  | finished => exact ⟨rfl, rfl⟩
  | stopped => exact ⟨rfl, rfl⟩

theorem Step.spent_of_error {error : ScriptError} (h : Step cursor (some (.error error)) cursor')
    : cursor'.Spent := by
  cases h with
  | failed => rfl
  | refused => rfl

theorem Step.error_eq {error : ScriptError} (h : Step cursor answer cursor')
    (herror : cursor.error? = some error)
    : cursor'.error? = some error := by
  cases h with
  | finished => exact herror
  | decoded => exact herror
  | failed => contradiction
  | refused => exact herror
  | stopped => exact herror

theorem Step.isSome_error_iff (h : Step cursor answer cursor')
    : cursor'.error?.isSome = true
        ↔
      cursor.error?.isSome = true ∨ StartsMalformed cursor.rest := by
  cases h with
  | finished => simp [error?, Progress.error?, StartsMalformed]
  | decoded hfits hrest =>
    subst hrest
    simp [error?, Progress.error?, not_startsMalformed_bytes_append hfits]
  | failed hdec =>
    simp only [error?, Progress.error?, Option.isSome_some, true_iff]
    exact .inr ⟨_, _, _, rfl, hdec⟩
  | refused => simp [error?, Progress.error?]
  | stopped => simp [error?, Progress.error?]

theorem Step.isDone (h : Step cursor answer cursor') (hdone : cursor.isDone = true)
    : cursor'.isDone = true ∧ ∀ ins, answer ≠ some (.ok ins) := by
  cases h with
  | finished => simp [Cursor.isDone]
  | decoded hfits hrest =>
    -- A cursor in front of an instruction is not done.
    simp [Cursor.isDone, error?, Progress.error?, hrest, Instruction.bytes] at hdone
  | failed => simp [Cursor.isDone, error?, Progress.error?] at hdone
  | refused => simp [Cursor.isDone, error?, Progress.error?]
  | stopped => simp [Cursor.isDone, error?, Progress.error?]

theorem Step.isSome_of_not_isDone (h : Step cursor answer cursor') (hdone : cursor.isDone = false)
    : answer.isSome = true := by
  cases h with
  | finished => simp [Cursor.isDone] at hdone
  | decoded => rfl
  | failed => rfl
  | refused => rfl
  | stopped => simp [Cursor.isDone, error?, Progress.error?] at hdone

end Step

/-! Calls are steps. -/

theorem Spent.after {cursor : Cursor} (h : cursor.Spent) (steps : Nat)
    : cursor.after steps = cursor := by
  induction steps with
  | zero => rfl
  | succ steps ih => rw [Cursor.after, h, ih]

theorem Spent.passed {cursor : Cursor} (h : cursor.Spent) (steps : Nat)
    : cursor.passed steps = [] := by
  induction steps with
  | zero => rfl
  | succ steps ih =>
    rw [Cursor.passed, h]
    exact ih

theorem after_add (first second : Nat) (cursor : Cursor)
    : cursor.after (first + second) = (cursor.after first).after second := by
  induction first generalizing cursor with
  | zero => rw [Nat.zero_add, after]
  | succ first ih => rw [Nat.succ_add, after, after, ih]

theorem passed_add (first second : Nat) (cursor : Cursor)
    : cursor.passed (first + second)
        =
      cursor.passed first ++ (cursor.after first).passed second := by
  induction first generalizing cursor with
  | zero => rw [Nat.zero_add, passed, after, List.nil_append]
  | succ first ih => rw [Nat.succ_add, passed, passed, after, ih, List.append_assoc]

theorem nth_eq (cursor : Cursor) (k : Nat)
    : cursor.nth k = ((cursor.passed (k + 1))[k]?, cursor.after (k + 1)) := by
  induction k generalizing cursor with
  | zero =>
    rcases hnext : cursor.next with ⟨answer, cursor'⟩
    cases answer <;> simp [nth, passed, after, hnext]
  | succ k ih =>
    have hstep := cursor.step_next
    rcases hnext : cursor.next with ⟨answer, cursor'⟩
    rw [hnext] at hstep
    cases answer with
    | none =>
      -- The items have ended, so the steps that `nth` does not take would change nothing.
      have hspent := hstep.spent_of_none.left
      rw [nth, hnext, passed, hnext, after, hnext, hspent.passed, hspent.after]
      rfl
    | some item =>
      rw [nth, hnext, passed, hnext, after, hnext]
      simp [ih]

theorem call_eq (cursor : Cursor) (call : Call)
    : cursor.call call
        =
      ((cursor.passed call.steps)[call.steps - 1]?, cursor.after call.steps) := by
  cases call with
  | next => exact cursor.nth_eq 0
  | nth k => exact cursor.nth_eq k

theorem run_eq_after (cursor : Cursor) (calls : List Call)
    : cursor.run calls = cursor.after (calls.map Call.steps).sum := by
  induction calls generalizing cursor with
  | nil => rfl
  | cons call calls ih =>
    have : cursor.run (call :: calls) = (cursor.call call).2.run calls := by rfl
    rw [this, ih, call_eq, List.map_cons, List.sum_cons, after_add]

theorem passedBy_eq_passed (cursor : Cursor) (calls : List Call)
    : cursor.passedBy calls = cursor.passed (calls.map Call.steps).sum := by
  induction calls generalizing cursor with
  | nil => rfl
  | cons call calls ih => rw [passedBy, ih, call_eq, List.map_cons, List.sum_cons, passed_add]

theorem Spent.call {cursor : Cursor} (h : cursor.Spent) (call : Call)
    : cursor.call call = (none, cursor) := by
  rw [call_eq, h.passed, h.after, List.getElem?_nil]

theorem Spent.run {cursor : Cursor} (h : cursor.Spent) (calls : List Call)
    : cursor.run calls = cursor := by
  rw [run_eq_after, h.after]

def EndsItems (answer : Option Item) : Prop :=
  answer = none ∨ ∃ error, answer = some (.error error)

theorem spent_next {cursor : Cursor} (h : EndsItems cursor.next.1) : cursor.next.2.Spent := by
  have hstep := cursor.step_next
  rcases h with h | ⟨error, h⟩
  . rw [h] at hstep
    exact hstep.spent_of_none.left
  . rw [h] at hstep
    exact hstep.spent_of_error

theorem spent_nth {cursor : Cursor} {k : Nat} (h : EndsItems (cursor.nth k).1)
    : (cursor.nth k).2.Spent := by
  induction k generalizing cursor with
  | zero => exact spent_next h
  | succ k ih =>
    have hspent := @spent_next cursor
    rcases hnext : cursor.next with ⟨answer, cursor'⟩
    rw [hnext] at hspent
    simp only [nth, hnext] at h ⊢
    cases answer with
    | none => exact hspent (.inl rfl)
    | some item => exact ih h

theorem spent_call {cursor : Cursor} {call : Call} (h : EndsItems (cursor.call call).1)
    : (cursor.call call).2.Spent := by
  cases call with
  | next => exact spent_next h
  | nth k => exact spent_nth h

theorem after_induction {motive : Cursor → Prop}
    (step : ∀ cursor, motive cursor → motive cursor.next.2) {cursor : Cursor} (h : motive cursor)
    (steps : Nat)
    : motive (cursor.after steps) := by
  induction steps generalizing cursor with
  | zero => exact h
  | succ steps ih => exact ih (step cursor h)

theorem run_induction {motive : Cursor → Prop}
    (step : ∀ cursor, motive cursor → motive cursor.next.2) {cursor : Cursor} (h : motive cursor)
    (calls : List Call)
    : motive (cursor.run calls) := by
  rw [run_eq_after]
  exact after_induction step h _

theorem isDone_next (cursor : Cursor) (h : cursor.isDone = true)
    : cursor.next.2.isDone = true := by
  exact (cursor.step_next.isDone h).left

theorem error_next {error : ScriptError} (cursor : Cursor) (h : cursor.error? = some error)
    : cursor.next.2.error? = some error := by
  exact cursor.step_next.error_eq h

theorem not_ok_mem_passed {cursor : Cursor} (h : cursor.isDone = true) (steps : Nat)
    (ins : Instruction)
    : .ok ins ∉ cursor.passed steps := by
  induction steps generalizing cursor with
  | zero => simp [passed]
  | succ steps ih =>
    have hanswer := (cursor.step_next.isDone h).right ins
    rw [passed, List.mem_append, Option.mem_toList]
    rintro (hmem | hmem)
    . exact hanswer hmem
    . exact ih (isDone_next _ h) hmem

theorem call_ne_ok {cursor : Cursor} (h : cursor.isDone = true) (call : Call) (ins : Instruction)
    : (cursor.call call).1 ≠ some (.ok ins) := by
  rw [call_eq]
  intro hanswer
  exact not_ok_mem_passed h _ _ (List.mem_of_getElem? hanswer)

theorem length_passed_add_budget_le (steps : Nat) (cursor : Cursor)
    : (cursor.passed steps).length + (cursor.after steps).budget ≤ cursor.budget := by
  induction steps generalizing cursor with
  | zero => simp [passed, after]
  | succ steps ih =>
    have hstep := cursor.step_next
    rcases hnext : cursor.next with ⟨answer, cursor'⟩
    rw [hnext] at hstep
    have hrest := ih cursor'
    rw [passed, after, hnext]
    cases answer with
    | none =>
      rw [← hstep.spent_of_none.right]
      exact hrest
    | some item =>
      have := budget_lt_of_next hnext
      simp only [Option.toList_some, List.length_append, List.length_singleton]
      omega

/-! Which states can be reached. -/

def instructionsOf (items : List Item) : List Instruction :=
  items.filterMap Except.toOption

@[simp]
theorem instructionsOf_map_ok (front : List Instruction)
    : instructionsOf (front.map Except.ok) = front := by
  simp [instructionsOf, List.filterMap_map, Function.comp_def, Except.toOption]

@[simp]
theorem instructionsOf_append_error (items : List Item) (error : ScriptError)
    : instructionsOf (items ++ [.error error]) = instructionsOf items := by
  simp [instructionsOf, Except.toOption]

inductive Reached (version : UInt16) (script : List UInt8) : List Item → Cursor → Prop where
  | reading {front : List Instruction} {rest : List UInt8} (hversion : version = 0)
      (hfits : ∀ ins ∈ front, ins.Fits) (hscript : script = front.flatMap Instruction.bytes ++ rest)
    : Reached version script (front.map .ok)
        ⟨script, rest, (front.flatMap Instruction.bytes).length, front.length, .reading⟩
  | failed {front : List Instruction} {rest : List UInt8} {byte : UInt8} {fault : PushFault}
      {error : ScriptError} (hversion : version = 0) (hfits : ∀ ins ∈ front, ins.Fits)
      (hscript : script = front.flatMap Instruction.bytes ++ byte :: rest)
      (hdec : Instruction.decode ⟨byte⟩ rest = .error fault)
      (herror : error = .malformedPush ⟨byte⟩ (front.flatMap Instruction.bytes).length fault)
    : Reached version script (front.map .ok ++ [.error error])
        ⟨script, byte :: rest, (front.flatMap Instruction.bytes).length, front.length,
          .stopped error⟩
  | refused (hversion : version ≠ 0)
    : Reached version script [] ⟨script, script, 0, 0, .refused (.unsupportedVersion version)⟩
  | unsupported (hversion : version ≠ 0)
    : Reached version script [.error (.unsupportedVersion version)]
        ⟨script, script, 0, 0, .stopped (.unsupportedVersion version)⟩

theorem start_zero (script : List UInt8) : start 0 script = ⟨script, script, 0, 0, .reading⟩ := by
  rfl

theorem start_of_ne_zero {version : UInt16} (h : version ≠ 0) (script : List UInt8)
    : start version script = ⟨script, script, 0, 0, .refused (.unsupportedVersion version)⟩ := by
  simp [start, h, Limits.supportedVersion]

theorem reached_start (version : UInt16) (script : List UInt8)
    : Reached version script [] (start version script) := by
  by_cases hversion : version = 0
  . subst hversion
    exact @Reached.reading 0 script [] script rfl (by simp) (by simp)
  . rw [start_of_ne_zero hversion]
    exact .refused hversion

section Reached

variable {version : UInt16} {script : List UInt8} {items : List Item} {cursor : Cursor}

theorem Reached.next (h : Reached version script items cursor)
    : Reached version script (items ++ cursor.next.1.toList) cursor.next.2 := by
  have hstep := cursor.step_next
  generalize cursor.next = result at *
  obtain ⟨answer, cursor'⟩ := result
  dsimp only at *
  -- The state leaves only the steps that can be taken in it.
  cases h with
  | @reading front rest hversion hfits hscript =>
    cases hstep with
    | finished =>
      rw [Option.toList_none, List.append_nil]
      exact .reading hversion hfits hscript
    | @decoded _ _ tail _ _ ins hins hrest =>
      have hfits' : ∀ before ∈ front ++ [ins], before.Fits := by
        simpa [or_imp, forall_and] using ⟨hfits, hins⟩
      have hscript' : script = (front ++ [ins]).flatMap Instruction.bytes ++ tail := by
        simp [hscript, hrest]
      have := Reached.reading hversion hfits' hscript'
      simpa using this
    | failed hdec => exact .failed hversion hfits hscript hdec rfl
  | failed hversion hfits hscript hdec herror =>
    cases hstep with
    | stopped =>
      rw [Option.toList_none, List.append_nil]
      exact .failed hversion hfits hscript hdec herror
  | refused hversion =>
    cases hstep with
    | refused => exact .unsupported hversion
  | unsupported hversion =>
    cases hstep with
    | stopped => exact .unsupported hversion

theorem Reached.after (h : Reached version script items cursor) (steps : Nat)
    : Reached version script (items ++ cursor.passed steps) (cursor.after steps) := by
  induction steps generalizing items cursor with
  | zero =>
    rw [Cursor.passed, List.append_nil]
    exact h
  | succ steps ih =>
    rw [Cursor.passed, ← List.append_assoc]
    exact ih h.next

theorem reached_run (version : UInt16) (script : List UInt8) (calls : List Call)
    : Reached version script ((start version script).passedBy calls)
        ((start version script).run calls) := by
  rw [passedBy_eq_passed, run_eq_after]
  exact (reached_start version script).after _

theorem Reached.offset_le (h : Reached version script items cursor)
    : cursor.offset ≤ script.length := by
  cases h with
  | reading hversion hfits hscript => simp [hscript]
  | failed hversion hfits hscript => simp [hscript]
  | refused => exact Nat.zero_le _
  | unsupported => exact Nat.zero_le _

theorem Reached.rest_eq (h : Reached version script items cursor)
    : cursor.rest = script.drop cursor.offset := by
  cases h with
  | reading hversion hfits hscript => simp [hscript]
  | failed hversion hfits hscript => simp [hscript]
  | refused => rfl
  | unsupported => rfl

theorem Reached.isDone_iff (h : Reached version script items cursor)
    : cursor.isDone = true ↔ cursor.error?.isSome = true ∨ script.length ≤ cursor.offset := by
  rw [isDone, Bool.or_eq_true, List.isEmpty_iff, h.rest_eq, List.drop_eq_nil_iff]

theorem Reached.encode_instructionsOf (h : Reached version script items cursor)
    : encode (instructionsOf items) = .ok (script.take cursor.offset) := by
  rw [encode_script_eq_ok_iff]
  cases h with
  | reading hversion hfits hscript => simpa [hscript] using hfits
  | failed hversion hfits hscript => simpa [hscript] using hfits
  | refused => simp [instructionsOf]
  | unsupported => simp [instructionsOf, Except.toOption]

theorem Reached.count_eq (h : Reached version script items cursor)
    : cursor.count = (instructionsOf items).length := by
  cases h with
  | reading => simp
  | failed => simp
  | refused => rfl
  | unsupported => rfl

theorem Reached.position_eq (h : Reached version script items cursor)
    : cursor.position?
        =
      if instructionsOf items = [] then none else some ((instructionsOf items).length - 1) := by
  simp [position?, h.count_eq]

theorem Reached.items_eq (h : Reached version script items cursor)
    : ∃ failure : Option ScriptError,
        items = (instructionsOf items).map .ok ++ failure.toList.map .error := by
  cases h with
  | reading => exact ⟨none, by simp⟩
  | @failed front rest byte fault error => exact ⟨some error, by simp⟩
  | refused => exact ⟨none, rfl⟩
  | unsupported => exact ⟨some (.unsupportedVersion version), rfl⟩

theorem Reached.error_cases {error : ScriptError} (h : Reached version script items cursor)
    (herror : cursor.error? = some error)
    : (version ≠ 0 ∧ error = .unsupportedVersion version)
        ∨ (version = 0 ∧ (decode script).error = some error) := by
  cases h with
  | reading => contradiction
  | failed hversion hfits hscript hdec hfailure =>
    cases herror
    refine .inr ⟨hversion, ?_⟩
    rw [hscript, decode_flatMap_append_of_error hfits hdec, hfailure]
  | refused hversion =>
    cases herror
    exact .inl ⟨hversion, rfl⟩
  | unsupported hversion =>
    cases herror
    exact .inl ⟨hversion, rfl⟩

end Reached

theorem isSome_error_after_iff (version : UInt16) (script : List UInt8) (steps : Nat)
    : ((start version script).after steps).error?.isSome = true
        ↔
      version ≠ 0
        ∨ ∃ earlier < steps,
            StartsMalformed (script.drop ((start version script).after earlier).offset) := by
  induction steps with
  | zero =>
    by_cases hversion : version = 0
    . simp [after, hversion, start_zero, error?, Progress.error?]
    . simp [after, hversion, start_of_ne_zero, error?, Progress.error?]
  | succ steps ih =>
    have hnext : (start version script).after (steps + 1)
        = ((start version script).after steps).next.2 := by
      rw [after_add]
      rfl
    rw [hnext, (step_next _).isSome_error_iff, ((reached_start version script).after steps).rest_eq,
      ih, Nat.exists_lt_succ_right, or_assoc]

/--
At every state that calls can lead to, the items are the instructions in front of the offset and at
most one error behind them. An error stays, nothing follows an item that ends the items, and
instructions follow only as long as the cursor is not done.
-/
theorem run_yields_front_then_error (version : UInt16) (script : List UInt8) (calls : List Call)
    : let cursor := (start version script).run calls
      let items := (start version script).passedBy calls
      let instructions := instructionsOf items
      cursor.offset ≤ script.length
        ∧ cursor.rest = script.drop cursor.offset
        ∧ encode instructions = .ok (script.take cursor.offset)
        ∧ cursor.position? = (if instructions = [] then none else some (instructions.length - 1))
        ∧ (cursor.error?.isSome = true
            ↔ version ≠ 0
              ∨ ∃ earlier < (calls.map Call.steps).sum,
                  StartsMalformed (script.drop ((start version script).after earlier).offset))
        ∧ (∀ error, cursor.error? = some error
            → ((version ≠ 0 ∧ error = .unsupportedVersion version)
                ∨ (version = 0 ∧ (decode script).error = some error))
              ∧ ∀ more, (cursor.run more).error? = some error)
        ∧ (∃ failure : Option ScriptError,
            items = instructions.map .ok ++ failure.toList.map .error)
        ∧ (∀ call, EndsItems (cursor.call call).1
            → ∀ more later,
                ((cursor.call call).2.run more).call later = (none, (cursor.call call).2))
        ∧ (cursor.isDone = true
            ↔ cursor.error?.isSome = true ∨ script.length ≤ cursor.offset)
        ∧ (cursor.isDone = true
            → ∀ more call ins, ((cursor.run more).call call).1 ≠ some (.ok ins))
        ∧ (cursor.isDone = false → ∃ item, cursor.next.1 = some item)
        ∧ items.length ≤ script.length + 1 := by
  intro cursor items instructions
  have hreached : Reached version script items cursor := reached_run version script calls
  refine ⟨hreached.offset_le, hreached.rest_eq, hreached.encode_instructionsOf,
    hreached.position_eq, ?_, ?_, hreached.items_eq, ?_, hreached.isDone_iff, ?_, ?_, ?_⟩
  . rw [← isSome_error_after_iff, ← run_eq_after]
  . intro error herror
    refine ⟨hreached.error_cases herror, ?_⟩
    intro more
    exact run_induction error_next herror more
  . intro call hanswer more later
    have hspent := spent_call hanswer
    rw [hspent.run, hspent.call]
  . intro hdone more call ins
    apply call_ne_ok
    exact run_induction isDone_next hdone more
  . intro hdone
    rw [← Option.isSome_iff_exists]
    exact cursor.step_next.isSome_of_not_isDone hdone
  . have hbudget := length_passed_add_budget_le (calls.map Call.steps).sum (start version script)
    have hstart : (start version script).budget = script.length + 1 := by
      by_cases hversion : version = 0
      . simp [budget, hversion, start_zero]
      . simp [budget, hversion, start_of_ne_zero]
    have hitems : items = (start version script).passed (calls.map Call.steps).sum := by
      apply passedBy_eq_passed
    rw [hitems]
    omega

end Cursor

end ScriptAnalysis
