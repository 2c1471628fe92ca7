import ScriptAnalysis.Instruction.Decode
import ScriptAnalysis.Limits

/-!
This module contains the cursor, which decodes a script one instruction at a time. Its position can
be observed after each step. Once an error has come up the cursor stays where it is: it yields the
error as its last item and nothing after it.
-/

namespace ScriptAnalysis

/--
An error that is known still has to be yielded if the cursor is `refused`, and no more if it is
`stopped`.
-/
inductive Progress where
  | reading
  | refused (error : ScriptError)
  | stopped (error : ScriptError)
deriving DecidableEq

namespace Progress

def error? : Progress → Option ScriptError
  | reading => none
  | refused error => some error
  | stopped error => some error

end Progress

structure Cursor where
  script : List UInt8
  rest : List UInt8
  offset : Nat
  count : Nat
  progress : Progress
deriving DecidableEq

namespace Cursor

abbrev Item := Except ScriptError Instruction

def start (version : UInt16) (script : List UInt8) : Cursor where
  script := script
  rest := script
  offset := 0
  count := 0
  progress :=
    if version = Limits.supportedVersion then
      .reading
    else
      .refused (.unsupportedVersion version)

def error? (cursor : Cursor) : Option ScriptError :=
  cursor.progress.error?

def position? (cursor : Cursor) : Option Nat :=
  if cursor.count = 0 then
    none
  else
    some (cursor.count - 1)

def isDone (cursor : Cursor) : Bool :=
  cursor.error?.isSome || cursor.rest.isEmpty

def next (cursor : Cursor) : Option Item × Cursor :=
  match cursor.progress with
  | .stopped _ => (none, cursor)
  | .refused error => (some (.error error), { cursor with progress := .stopped error })
  | .reading =>
    match cursor.rest with
    | [] => (none, cursor)
    | byte :: rest =>
      match Instruction.decode ⟨byte⟩ rest with
      | .ok (ins, tail) =>
        (some (.ok ins),
          { cursor with
            rest := tail
            offset := cursor.offset + ins.size
            count := cursor.count + 1 })
      | .error fault =>
        let error := .malformedPush ⟨byte⟩ cursor.offset fault
        (some (.error error), { cursor with progress := .stopped error })

def nth (k : Nat) (cursor : Cursor) : Option Item × Cursor :=
  match k with
  | 0 => cursor.next
  | k + 1 =>
    match cursor.next with
    | (some _, cursor) => cursor.nth k
    | (none, cursor) => (none, cursor)

/--
No more items than this can follow: every byte that is left may be an instruction, and an error may
end the script.
-/
def budget (cursor : Cursor) : Nat :=
  match cursor.progress with
  | .stopped _ => 0
  | _ => cursor.rest.length + 1

theorem budget_lt_of_next {cursor cursor' : Cursor} {item : Item}
    (h : cursor.next = (some item, cursor'))
    : cursor'.budget < cursor.budget := by
  unfold next at h
  split at h
  . simp at h
  . next hprogress =>
    cases h
    simp [budget, hprogress]
  . next hprogress =>
    split at h
    . simp at h
    . next hrest =>
      split at h
      . next hdecode =>
        have := Instruction.length_tail_le_of_decode hdecode
        cases h
        simp only [budget, hprogress, hrest, List.length_cons] at *
        omega
      . cases h
        simp [budget, hprogress]

def drain (cursor : Cursor) : List Item × Cursor :=
  go [] cursor
where
  go (acc : List Item) (cursor : Cursor) : List Item × Cursor :=
    match h : cursor.next with
    | (some item, cursor') =>
      have := budget_lt_of_next h
      go (item :: acc) cursor'
    | (none, cursor') => (acc.reverse, cursor')
  termination_by cursor.budget

end Cursor

def checkDecodes (version : UInt16) (script : List UInt8) : Except ScriptError Unit :=
  match (Cursor.start version script).drain.2.error? with
  | none => .ok ()
  | some error => .error error

end ScriptAnalysis
