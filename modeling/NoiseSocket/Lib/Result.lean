import Mathlib.Logic.Basic
import Mathlib.Algebra.Order.Ring.Int

namespace Exec

/-- Outcome of running a piece of C code: it returns, it performs an access
with undefined behaviour, or it runs out of loop passes. -/
inductive Result (A : Type) where
  | ok (value : A)
  | fault
  | div
deriving DecidableEq, Repr

namespace Result

variable {A B C : Type}

protected def bind (x : Result A) (f : A → Result B) : Result B :=
  match x with
  | ok a => f a
  | fault => fault
  | div => div

instance : Monad Result where
  pure := ok
  bind := Result.bind

@[simp]
theorem bind_ok (a : A) (f : A → Result B) : (ok a >>= f) = f a := rfl

@[simp]
theorem bind_fault (f : A → Result B) : ((fault : Result A) >>= f) = fault := rfl

@[simp]
theorem bind_div (f : A → Result B) : ((div : Result A) >>= f) = div := rfl

@[simp]
theorem pure_eq (a : A) : (pure a : Result A) = ok a := rfl

theorem bind_eq_ok_iff {x : Result A} {f : A → Result B} {y : B} :
    (x >>= f) = ok y ↔ ∃ a, x = ok a ∧ f a = ok y := by
  cases x <;> simp

/-- A sequence returns where its parts do. -/
theorem bind_total {x : Result A} {f : A → Result B} (hx : ∃ a, x = ok a)
    (hf : ∀ a, ∃ b, f a = ok b) : ∃ b, (x >>= f) = ok b := by
  obtain ⟨a, rfl⟩ := hx
  exact hf a

/-- Only a divergent part makes a sequence divergent. -/
theorem bind_ne_div {x : Result A} {f : A → Result B}
    (hx : x ≠ div) (hf : ∀ a, x = ok a → f a ≠ div) : (x >>= f) ≠ div := by
  cases x with
  | ok a => exact hf a rfl
  | fault => simp
  | div => exact absurd rfl hx

theorem bind_ne_fault {x : Result A} {f : A → Result B}
    (hx : x ≠ fault) (hf : ∀ a, x = ok a → f a ≠ fault) : (x >>= f) ≠ fault := by
  cases x with
  | ok a => exact hf a rfl
  | fault => exact absurd rfl hx
  | div => simp

/-- Code that has no undefined behaviour and returns what satisfies `post`, if it
returns. -/
def Safe (x : Result A) (post : A → Prop) : Prop :=
  match x with
  | ok a => post a
  | fault => False
  | div => True

theorem Safe.bind {x : Result A} {f : A → Result B} {mid : A → Prop} {post : B → Prop}
    (hx : x.Safe mid) (hf : ∀ a, mid a → (f a).Safe post) : (x >>= f).Safe post := by
  cases x with
  | ok a => exact hf a hx
  | fault => exact hx
  | div => trivial

theorem Safe.of_cases {x : Result A} {post : A → Prop} (hfault : x ≠ fault)
    (hok : ∀ a, x = ok a → post a) : x.Safe post := by
  cases x with
  | ok a => exact hok a rfl
  | fault => exact absurd rfl hfault
  | div => trivial

theorem Safe.ne_fault {x : Result A} {post : A → Prop} (hx : x.Safe post) : x ≠ fault := by
  rintro rfl
  exact hx

theorem Safe.of_eq_ok {x : Result A} {post : A → Prop} {a : A} (hx : x.Safe post)
    (ha : x = ok a) : post a := by
  subst ha
  exact hx

/-- Map over a returned value. -/
def map (f : A → B) : Result A → Result B
  | ok a => ok (f a)
  | fault => fault
  | div => div

@[simp]
theorem map_ok (f : A → B) (a : A) : (ok a).map f = ok (f a) := rfl

end Result

end Exec
