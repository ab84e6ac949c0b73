import Mathlib.Data.List.Basic
import Mathlib.Tactic.Common

/-!
A queue: what is put in behind is taken out in front. A component refines a queue if its
history is one of a queue.
-/

namespace Fifo

/-- An element is put into the queue, or taken out of it. -/
inductive Event (α : Type*) where
  | put (a : α)
  | take (a : α)
deriving DecidableEq, Repr

variable {α : Type*} {q q' q'' : List α} {a : α} {history more : List (Event α)}

/-- The histories that lead from one content of a queue to another. -/
inductive Runs : List α → List (Event α) → List α → Prop where
  | nil (q : List α) : Runs q [] q
  | put {q q' : List α} {history : List (Event α)} (a : α) (h : Runs (q ++ [a]) history q') :
      Runs q (.put a :: history) q'
  | take {q q' : List α} {history : List (Event α)} (a : α) (h : Runs q history q') :
      Runs (a :: q) (.take a :: history) q'

theorem Runs.append (h : Runs q history q') (h' : Runs q' more q'') : Runs q (history ++ more) q'' := by
  induction h with
  | nil q => exact h'
  | put a _ ih => exact .put a (ih h')
  | take a _ ih => exact .take a (ih h')

theorem Runs.snoc_put (h : Runs q history q') (a : α) : Runs q (history ++ [.put a]) (q' ++ [a]) :=
  h.append (.put a (.nil _))

theorem Runs.snoc_take (h : Runs q history (a :: q')) : Runs q (history ++ [.take a]) q' :=
  h.append (.take a (.nil _))

/-- What has been put in. -/
def puts (history : List (Event α)) : List α :=
  history.filterMap fun
    | .put a => some a
    | .take _ => none

/-- What has been taken out. -/
def takes (history : List (Event α)) : List α :=
  history.filterMap fun
    | .put _ => none
    | .take a => some a

/-- Nothing is lost, added or overtaken. -/
theorem Runs.conserved (h : Runs q history q') : q ++ puts history = takes history ++ q' := by
  induction h with
  | nil q => simp [puts, takes]
  | put a _ ih =>
    rw [List.append_assoc] at ih
    exact ih
  | take a _ ih => exact congrArg (a :: ·) ih

/-- What has been put in and not yet taken out. -/
def left (history : List (Event α)) : List α := (puts history).drop (takes history).length

theorem Runs.left_eq (h : Runs [] history q) : left history = q := by
  have hconserved := h.conserved
  rw [List.nil_append] at hconserved
  rw [left, hconserved, List.drop_left]

/-- The queue at the end is determined by the history. -/
theorem Runs.unique (h : Runs q history q') (h' : Runs q history q'') : q' = q'' :=
  List.append_cancel_left (h.conserved.symm.trans h'.conserved)

end Fifo
