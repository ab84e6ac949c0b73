import NoiseSocket.Lib.Result

namespace Exec

open Result

/-- What one pass of a loop body does: go round again, or leave the loop. -/
inductive ControlFlow (S A : Type) where
  | cont (state : S)
  | done (value : A)
deriving DecidableEq, Repr

/-- What the loop goes round with, or what it leaves with, satisfies its predicate. -/
def ControlFlow.Holds {S A : Type} (inv : S → Prop) (post : A → Prop) : ControlFlow S A → Prop
  | .cont next => inv next
  | .done value => post value

/-- An unconditional loop, run for at most `fuel` passes. -/
def loop {S A : Type} (body : S → Result (ControlFlow S A)) : Nat → S → Result A
  | 0, _ => div
  | fuel + 1, s => do
    match ← body s with
    | .cont next => loop body fuel next
    | .done value => ok value

section

variable {S A : Type} {body : S → Result (ControlFlow S A)}

@[simp]
theorem loop_zero (s : S) : loop body 0 s = div := rfl

theorem loop_succ (fuel : Nat) (s : S) :
    loop body (fuel + 1) s = body s >>= fun flow =>
      match flow with
      | .cont next => loop body fuel next
      | .done value => ok value := rfl

theorem loop_of_done {fuel : Nat} {s : S} {value : A} (hfuel : 0 < fuel)
    (hbody : body s = ok (.done value)) : loop body fuel s = ok value := by
  obtain ⟨n, rfl⟩ : ∃ n, fuel = n + 1 := ⟨fuel - 1, by omega⟩
  simp [loop_succ, hbody]

theorem loop_of_cont {fuel : Nat} {s next : S} (hbody : body s = ok (.cont next)) :
    loop body (fuel + 1) s = loop body fuel next := by
  simp [loop_succ, hbody]

theorem loop_of_fault {fuel : Nat} {s : S} (hfuel : 0 < fuel)
    (hbody : body s = fault) : loop body fuel s = fault := by
  obtain ⟨n, rfl⟩ : ∃ n, fuel = n + 1 := ⟨fuel - 1, by omega⟩
  simp [loop_succ, hbody]

/-- More passes, also of the loops inside the body, do not change what a loop has
returned. -/
theorem loop_mono {body' : S → Result (ControlFlow S A)}
    (hbody : ∀ s flow, body s = ok flow → body' s = ok flow) {fuel more : Nat} {s : S} {value : A}
    (hle : fuel ≤ more) (hloop : loop body fuel s = ok value) : loop body' more s = ok value := by
  induction fuel generalizing more s with
  | zero => cases hloop
  | succ n ih =>
    obtain ⟨k, rfl⟩ : ∃ k, more = k + 1 := ⟨more - 1, by omega⟩
    rw [loop_succ, bind_eq_ok_iff] at hloop ⊢
    obtain ⟨flow, hflow, hrest⟩ := hloop
    refine ⟨flow, hbody s flow hflow, ?_⟩
    cases flow with
    | cont next => exact ih (by omega) hrest
    | done result => exact hrest

/-- Partial correctness: an invariant of the passes, and what it gives on the
pass that leaves, hold of whatever the loop returns. -/
theorem loop_invariant (inv : S → Prop) (post : A → Prop)
    (hcont : ∀ s next, inv s → body s = ok (.cont next) → inv next)
    (hdone : ∀ s value, inv s → body s = ok (.done value) → post value)
    {fuel : Nat} {s : S} {value : A} (hs : inv s) (hloop : loop body fuel s = ok value) :
    post value := by
  induction fuel generalizing s with
  | zero => cases hloop
  | succ n ih =>
    rw [loop_succ, bind_eq_ok_iff] at hloop
    obtain ⟨flow, hbody, hrest⟩ := hloop
    cases flow with
    | cont next => exact ih (hcont s next hs hbody) hrest
    | done result =>
      cases hrest
      exact hdone s _ hs hbody

/-- Partial correctness, with both ends of a pass in one. -/
theorem loop_holds (inv : S → Prop) (post : A → Prop)
    (hbody : ∀ s flow, inv s → body s = ok flow → flow.Holds inv post)
    {fuel : Nat} {s : S} {value : A} (hs : inv s) (hloop : loop body fuel s = ok value) : post value :=
  loop_invariant inv post (fun s next hs hnext => hbody s (.cont next) hs hnext)
    (fun s value hs hvalue => hbody s (.done value) hs hvalue) hs hloop

/-- What every pass leaves as it is, the loop leaves as it is. -/
theorem loop_keeps {B : Type} (f : S → B) (g : A → B)
    (hbody : ∀ s flow, body s = ok flow → flow.Holds (fun next => f next = f s) fun value => g value = f s)
    {fuel : Nat} {s : S} {value : A} (hloop : loop body fuel s = ok value) : g value = f s := by
  refine loop_invariant (fun next => f next = f s) (fun value => g value = f s) ?_ ?_ rfl hloop
  · exact fun t next ht hnext => (hbody t _ hnext).trans ht
  · exact fun t value ht hvalue => (hbody t _ hvalue).trans ht

/-- An invariant of the passes under which no pass has undefined behaviour. -/
theorem loop_safe (inv : S → Prop) (post : A → Prop)
    (hbody : ∀ s, inv s → (body s).Safe (ControlFlow.Holds inv post))
    {fuel : Nat} {s : S} (hs : inv s) : (loop body fuel s).Safe post := by
  induction fuel generalizing s with
  | zero => trivial
  | succ n ih =>
    rw [loop_succ]
    refine (hbody s hs).bind fun flow hflow => ?_
    cases flow with
    | cont next => exact ih hflow
    | done value => exact hflow

/-- A body without undefined behaviour. -/
theorem loop_ne_fault (hbody : ∀ s, body s ≠ fault) (fuel : Nat) (s : S) :
    loop body fuel s ≠ fault := by
  induction fuel generalizing s with
  | zero => nofun
  | succ n ih =>
    rw [loop_succ]
    refine bind_ne_fault (hbody s) ?_
    intro flow _
    cases flow with
    | cont next => exact ih next
    | done value => nofun

/-- Termination: a quantity that drops on every pass that goes round again
bounds the number of passes. -/
theorem loop_ne_div (inv : S → Prop) (measure : S → Nat)
    (hbody : ∀ s, inv s → body s ≠ div)
    (hcont : ∀ s next, inv s → body s = ok (.cont next) → inv next ∧ measure next < measure s)
    {fuel : Nat} {s : S} (hs : inv s) (hfuel : measure s < fuel) : loop body fuel s ≠ div := by
  induction fuel generalizing s with
  | zero => omega
  | succ n ih =>
    rw [loop_succ]
    refine bind_ne_div (hbody s hs) ?_
    intro flow hflow
    cases flow with
    | cont next =>
      obtain ⟨hnext, hlt⟩ := hcont s next hs hflow
      exact ih hnext (by omega)
    | done value => simp

/-- Total correctness: a body that always returns, with a quantity that drops on
every pass that goes round again. -/
theorem loop_ok (inv : S → Prop) (measure : S → Nat)
    (hbody : ∀ s, inv s → ∃ flow, body s = ok flow ∧
      ∀ next, flow = .cont next → inv next ∧ measure next < measure s)
    {fuel : Nat} {s : S} (hs : inv s) (hfuel : measure s < fuel) :
    ∃ value, loop body fuel s = ok value := by
  induction fuel generalizing s with
  | zero => omega
  | succ n ih =>
    obtain ⟨flow, hflow, hnext⟩ := hbody s hs
    rw [loop_succ, hflow, bind_ok]
    cases flow with
    | cont next =>
      obtain ⟨hinv, hlt⟩ := hnext next rfl
      exact ih hinv (by omega)
    | done value => exact ⟨value, rfl⟩

/-- Divergence: states from which every pass goes round again, to a state of
the same kind, exhaust any number of passes. -/
theorem loop_eq_div (inv : S → Prop)
    (hbody : ∀ s, inv s → ∃ next, body s = ok (.cont next) ∧ inv next)
    (fuel : Nat) {s : S} (hs : inv s) : loop body fuel s = div := by
  induction fuel generalizing s with
  | zero => rfl
  | succ n ih =>
    obtain ⟨next, hstep, hnext⟩ := hbody s hs
    rw [loop_of_cont hstep]
    exact ih hnext

end

end Exec
