import Mathlib.Data.List.Perm.Basic
import Mathlib.Order.Basic

namespace Insertion

variable {A : Type}

/-- An element is moved down a sorted array, whose last element comes first here, as long
as the one before it compares greater. -/
def insert (cmp : A → A → Int) (x : A) : List A → List A
  | [] => [x]
  | y :: ys => if 0 < cmp y x then y :: insert cmp x ys else x :: y :: ys

/-- Insertion sort with a comparison function in the manner of C. -/
def sort (cmp : A → A → Int) (xs : List A) : List A :=
  (xs.foldl (fun sorted x => insert cmp x sorted) []).reverse

variable {cmp : A → A → Int}

theorem insert_perm (x : A) (ys : List A) : (insert cmp x ys).Perm (x :: ys) := by
  induction ys with
  | nil => exact List.Perm.refl _
  | cons y ys ih =>
    simp only [insert]
    split
    · exact (ih.cons y).trans (List.Perm.swap x y ys)
    · exact List.Perm.refl _

theorem foldl_insert_perm (xs sorted : List A) :
    (xs.foldl (fun sorted x => insert cmp x sorted) sorted).Perm (xs ++ sorted) := by
  induction xs generalizing sorted with
  | nil => exact List.Perm.refl _
  | cons x xs ih =>
    have hinsert : (xs ++ insert cmp x sorted).Perm (xs ++ x :: sorted) :=
      (insert_perm x sorted).append_left xs
    exact ((ih _).trans hinsert).trans List.perm_middle

theorem sort_perm (xs : List A) : (sort cmp xs).Perm xs := by
  have hperm := @foldl_insert_perm _ cmp xs []
  rw [List.append_nil] at hperm
  exact (List.reverse_perm _).trans hperm

section Rank

variable {P : Type} [Preorder P] {rank : A → P}
  (hgreater : ∀ x y, 0 < cmp y x → rank x ≤ rank y)
  (hother : ∀ x y, ¬ 0 < cmp y x → rank y ≤ rank x)

include hgreater hother

theorem insert_pairwise (x : A) {ys : List A} (hys : ys.Pairwise fun y z => rank z ≤ rank y) :
    (insert cmp x ys).Pairwise fun y z => rank z ≤ rank y := by
  induction ys with
  | nil => exact List.pairwise_singleton _ _
  | cons y ys ih =>
    obtain ⟨hy, htail⟩ := List.pairwise_cons.mp hys
    simp only [insert]
    split
    · rename_i hcmp
      refine List.pairwise_cons.mpr ⟨?_, ih htail⟩
      intro z hz
      obtain rfl | hz := List.mem_cons.mp ((insert_perm x ys).mem_iff.mp hz)
      · exact hgreater z y hcmp
      · exact hy z hz
    · rename_i hcmp
      refine List.pairwise_cons.mpr ⟨?_, hys⟩
      intro z hz
      obtain rfl | hz := List.mem_cons.mp hz
      · exact hother x z hcmp
      · exact (hy z hz).trans (hother x y hcmp)

/-- A comparison that never contradicts the rank of the elements sorts them by rank, even
if it is not an order. -/
theorem sort_pairwise (xs : List A) : (sort cmp xs).Pairwise fun y z => rank y ≤ rank z := by
  rw [sort, List.pairwise_reverse]
  suffices h : ∀ sorted : List A, (sorted.Pairwise fun y z => rank z ≤ rank y) →
      (xs.foldl (fun sorted x => insert cmp x sorted) sorted).Pairwise fun y z => rank z ≤ rank y from
    h [] List.Pairwise.nil
  induction xs with
  | nil => exact fun sorted hsorted => hsorted
  | cons x xs ih => exact fun sorted hsorted => ih _ (insert_pairwise hgreater hother x hsorted)

end Rank

end Insertion
