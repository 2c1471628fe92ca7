import ScriptAnalysis.Proofs.Cursor

namespace ScriptAnalysis

namespace Cursor

@[elab_as_elim]
theorem next_induction {motive : Cursor → Prop}
    (spent : ∀ cursor, cursor.Spent → motive cursor)
    (step : ∀ cursor item cursor',
      cursor.next = (some item, cursor') → motive cursor' → motive cursor)
    (cursor : Cursor)
    : motive cursor := by
  induction hbudget : cursor.budget using Nat.strongRecOn generalizing cursor with
  | ind budget ih =>
    subst hbudget
    have hstep := cursor.step_next
    rcases hnext : cursor.next with ⟨answer, cursor'⟩
    rw [hnext] at hstep
    cases answer with
    | none =>
      apply spent
      rw [← hstep.spent_of_none.right]
      exact hstep.spent_of_none.left
    | some item =>
      apply step cursor item cursor' hnext
      exact ih _ (budget_lt_of_next hnext) cursor' rfl

section Equations

variable {cursor cursor' : Cursor} {item : Item}

theorem drain.go_of_spent (h : cursor.Spent) (acc : List Item)
    : drain.go acc cursor = (acc.reverse, cursor) := by
  rw [drain.go]
  split <;> simp_all [Spent]

theorem drain.go_of_some (h : cursor.next = (some item, cursor')) (acc : List Item)
    : drain.go acc cursor = drain.go (item :: acc) cursor' := by
  rw [drain.go]
  split <;> simp_all

theorem drain.go_eq (acc : List Item) (cursor : Cursor)
    : drain.go acc cursor = (acc.reverse ++ cursor.drain.1, cursor.drain.2) := by
  unfold drain
  induction cursor using next_induction generalizing acc with
  | spent cursor hspent => simp [drain.go_of_spent hspent]
  | step cursor item cursor' hnext ih =>
    rw [drain.go_of_some hnext, drain.go_of_some hnext, ih, ih [item]]
    simp

theorem drain_of_spent (h : cursor.Spent) : cursor.drain = ([], cursor) := by
  unfold drain
  rw [drain.go_of_spent h, List.reverse_nil]

theorem drain_of_some (h : cursor.next = (some item, cursor'))
    : cursor.drain = (item :: cursor'.drain.1, cursor'.drain.2) := by
  rw [drain, drain.go_of_some h, drain.go_eq]
  rfl

end Equations

theorem spent_drain (cursor : Cursor) : cursor.drain.2.Spent := by
  induction cursor using next_induction with
  | spent cursor hspent =>
    rw [drain_of_spent hspent]
    exact hspent
  | step cursor item cursor' hnext ih =>
    rw [drain_of_some hnext]
    exact ih

theorem Spent.isDone {cursor : Cursor} (h : cursor.Spent) : cursor.isDone = true := by
  apply Decidable.byContradiction
  intro hdone
  have := cursor.step_next.isSome_of_not_isDone (Bool.eq_false_iff.mpr hdone)
  rw [h] at this
  contradiction

section Reached

variable {version : UInt16} {script : List UInt8} {items : List Item} {cursor : Cursor}

theorem Reached.drain (h : Reached version script items cursor)
    : Reached version script (items ++ cursor.drain.1) cursor.drain.2 := by
  induction cursor using next_induction generalizing items with
  | spent cursor hspent =>
    rw [drain_of_spent hspent, List.append_nil]
    exact h
  | step cursor item cursor' hnext ih =>
    have hreached := h.next
    rw [hnext] at hreached
    have := ih hreached
    rw [drain_of_some hnext]
    simpa using this

theorem Reached.eq_decode_of_spent (h : Reached 0 script items cursor) (hspent : cursor.Spent)
    : items = (decode script).instructions.map .ok ++ (decode script).error.toList.map .error
        ∧ cursor.error? = (decode script).error := by
  cases h with
  | @reading front rest hversion hfits hscript =>
    have hrest : rest = [] := by
      simpa [isDone, error?, Progress.error?] using hspent.isDone
    rw [hscript, hrest, List.append_nil, decode_flatMap hfits]
    simp [error?, Progress.error?]
  | failed hversion hfits hscript hdec herror =>
    rw [hscript, decode_flatMap_append_of_error hfits hdec, ← herror]
    exact ⟨rfl, rfl⟩
  | refused hversion => contradiction
  | unsupported hversion => contradiction

end Reached

theorem drain_start (script : List UInt8)
    : (start 0 script).drain.1
          = (decode script).instructions.map .ok ++ (decode script).error.toList.map .error
        ∧ (start 0 script).drain.2.error? = (decode script).error := by
  apply Reached.eq_decode_of_spent
  . exact (reached_start 0 script).drain
  . apply spent_drain

theorem error_drain {error : ScriptError} {cursor : Cursor} (h : cursor.error? = some error)
    : cursor.drain.2.error? = some error := by
  induction cursor using next_induction with
  | spent cursor hspent =>
    rw [drain_of_spent hspent]
    exact h
  | step cursor item cursor' hnext ih =>
    have := error_next cursor h
    rw [hnext] at this
    rw [drain_of_some hnext]
    exact ih this

end Cursor

end ScriptAnalysis
