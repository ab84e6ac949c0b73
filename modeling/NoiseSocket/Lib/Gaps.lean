import Mathlib.Algebra.BigOperators.Group.List.Basic
import Mathlib.Algebra.Group.Basic

/-- The steps from each member of a list to the next. -/
def Gaps.gaps {G : Type} [Sub G] (l : List G) : List G := List.zipWith (fun a b => b - a) l l.tail

namespace Gaps

variable {G : Type}

section

variable [Sub G]

@[simp]
theorem gaps_nil : gaps ([] : List G) = [] := rfl

@[simp]
theorem gaps_singleton (a : G) : gaps [a] = [] := rfl

theorem gaps_cons_cons (a b : G) (l : List G) : gaps (a :: b :: l) = (b - a) :: gaps (b :: l) := rfl

/-- Another member is one more step from the last one. -/
theorem gaps_append (l : List G) (a b : G) : gaps (l ++ [a, b]) = gaps (l ++ [a]) ++ [b - a] := by
  induction l with
  | nil => rfl
  | cons x l ih =>
    cases l with
    | nil => rfl
    | cons y l =>
      simp only [List.cons_append] at ih ⊢
      rw [gaps_cons_cons, gaps_cons_cons, ih, List.cons_append]

end

/-- The steps add up to the way from the first member to the last. -/
theorem sum_gaps [AddCommGroup G] (a : G) (l : List G) (b : G) : (gaps (a :: (l ++ [b]))).sum = b - a := by
  induction l generalizing a with
  | nil =>
    rw [List.nil_append, gaps_cons_cons]
    simp
  | cons x l ih =>
    rw [List.cons_append, gaps_cons_cons, List.sum_cons, ih x, sub_add_sub_cancel']

end Gaps
