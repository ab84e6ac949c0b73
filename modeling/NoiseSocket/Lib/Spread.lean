import Mathlib.Algebra.BigOperators.Group.Finset.Basic
import Mathlib.Algebra.Order.BigOperators.Group.Finset
import Mathlib.Algebra.BigOperators.Ring.Finset
import Mathlib.Tactic.Linarith
import Mathlib.Tactic.Ring

/-!
Credits that are handed out to any members and paid by the one of them that is ahead, whoever takes
part in a round: how far they can come apart.
-/

open Finset

/-- The credits add up to zero, and no `k` of the `n` members are together more than `k * (n - k)`
steps of `most` behind. -/
structure Spread {ι : Type*} (members : Finset ι) (most : ℤ) (c : ι → ℤ) : Prop where
  sum : ∑ i ∈ members, c i = 0
  low : ∀ part ⊆ members, -(most * (#(part) * (#(members) - #(part)))) ≤ ∑ i ∈ part, c i

namespace Spread

variable {ι : Type*} {members : Finset ι} {most : ℤ} {c e : ι → ℤ} {i : ι}

theorem zero (hmost : 0 ≤ most) : Spread members most (0 : ι → ℤ) := by
  refine ⟨by simp, ?_⟩
  intro part hpart
  have hle : #(part) ≤ #(members) := card_le_card hpart
  have hnonneg : 0 ≤ most * (#(part) * (#(members) - #(part)) : ℤ) :=
    mul_nonneg hmost (mul_nonneg (by omega) (by omega))
  simp only [Pi.zero_apply, sum_const_zero]
  omega

theorem congr {c' : ι → ℤ} (h : Spread members most c) (hsame : ∀ i ∈ members, c' i = c i) :
    Spread members most c' := by
  refine ⟨(sum_congr rfl hsame).trans h.sum, ?_⟩
  intro part hpart
  rw [sum_congr rfl fun i hi => hsame i (hpart hi)]
  exact h.low part hpart

/-- One member is at most `n - 1` steps behind. -/
theorem le_credit (h : Spread members most c) (hi : i ∈ members) : -(most * (#(members) - 1)) ≤ c i := by
  have hlow := h.low {i} (singleton_subset_iff.mpr hi)
  simpa using hlow

/-- One member is at most `n - 1` steps ahead: the others are together so far behind. -/
theorem credit_le [DecidableEq ι] (h : Spread members most c) (hi : i ∈ members) :
    c i ≤ most * (#(members) - 1) := by
  have hlow := h.low (members.erase i) (erase_subset i members)
  have hcard : (#(members.erase i) : ℤ) = #(members) - 1 := by
    rw [card_erase_of_mem hi]
    have hpos : 0 < #(members) := card_pos.mpr ⟨i, hi⟩
    omega
  have hsum := add_sum_erase members c hi
  rw [h.sum] at hsum
  rw [hcard] at hlow
  have hone : most * ((#(members) - 1) * (#(members) - (#(members) - 1))) = most * ((#(members) : ℤ) - 1) := by
    ring
  rw [hone] at hlow
  omega

variable [DecidableEq ι] {part : Finset ι} {x : ι}

/-- What a part of the members has behind a round: what those of it that took part were given, less
what the one that pays has paid. -/
theorem sum_paid (members : Finset ι) (c e : ι → ℤ) (part : Finset ι) (x : ι) :
    ∑ i ∈ members, (c i + (if i ∈ part then e i else 0) - if i = x then ∑ j ∈ part, e j else 0) =
      ∑ i ∈ members, c i + ∑ i ∈ members ∩ part, e i - if x ∈ members then ∑ j ∈ part, e j else 0 := by
  rw [sum_sub_distrib, sum_add_distrib, sum_ite_mem, sum_ite_eq']

/-- A round: each of those that take part is given up to `most`, and the one of them that is ahead
then pays for all. -/
theorem pay (h : Spread members most c) (hpart : part ⊆ members) (hx : x ∈ part)
    (hgiven : ∀ i ∈ part, 0 ≤ e i ∧ e i ≤ most) (hahead : ∀ i ∈ part, c i + e i ≤ c x + e x) :
    Spread members most fun i =>
      c i + (if i ∈ part then e i else 0) - if i = x then ∑ j ∈ part, e j else 0 := by
  constructor
  · rw [sum_paid, h.sum, inter_eq_right.mpr hpart, if_pos (hpart hx)]
    omega
  intro some hsome
  rw [sum_paid]
  by_cases hpays : x ∈ some
  · -- those that gain from the round are no further ahead than the one that pays for them
    have hrest : some.erase x ⊆ members := (erase_subset x some).trans hsome
    have hmore : some ∪ part ⊆ members := union_subset hsome hpart
    have hlow := h.low _ hrest
    have hhigh := h.low _ hmore
    have hsplit : ∑ i ∈ some ∩ part, e i + ∑ i ∈ part \ some, e i = ∑ i ∈ part, e i := by
      rw [inter_comm]
      exact sum_inter_add_sum_sdiff part some e
    have hunion : ∑ i ∈ some ∪ part, c i = ∑ i ∈ some, c i + ∑ i ∈ part \ some, c i := by
      rw [← union_sdiff_self_eq_union, sum_union disjoint_sdiff]
    have herase := add_sum_erase some c hpays
    have hcard : #(some ∪ part) = #(some) + #(part \ some) := by
      rw [← union_sdiff_self_eq_union, card_union_of_disjoint disjoint_sdiff]
    have hcard' : (#(some.erase x) : ℤ) = #(some) - 1 := by
      rw [card_erase_of_mem hpays]
      have hpos : 0 < #(some) := card_pos.mpr ⟨x, hpays⟩
      omega
    have hbehind : ∑ i ∈ part \ some, c i + ∑ i ∈ part \ some, e i ≤ #(part \ some) * (c x + e x) := by
      rw [← sum_add_distrib, ← nsmul_eq_mul]
      exact sum_le_card_nsmul _ _ _ fun i hi => hahead i (sdiff_subset hi)
    have hmost : ∑ i ∈ part \ some, e i ≤ #(part \ some) * most := by
      rw [← nsmul_eq_mul]
      exact sum_le_card_nsmul _ _ _ fun i hi => (hgiven i (sdiff_subset hi)).2
    have hpayer := (hgiven x hx).2
    rw [hcard', ← sub_nonneg] at hlow
    rw [hcard, hunion] at hhigh
    push_cast at hhigh
    rw [if_pos hpays]
    have hj : (0 : ℤ) ≤ #(part \ some) := Int.natCast_nonneg _
    have hscaled := mul_nonneg hj hlow
    have hgiven' := mul_le_mul_of_nonneg_left (add_le_add hpayer hmost) hj
    have hpos : (0 : ℤ) < #(part \ some) + 1 := by omega
    refine le_of_mul_le_mul_left ?_ hpos
    rw [← hsplit, ← herase]
    rw [← herase] at hhigh
    generalize (#(part \ some) : ℤ) = j at *
    generalize (#(some) : ℤ) = k at *
    generalize (#(members) : ℤ) = n at *
    linarith only [hscaled, hgiven', hhigh, hbehind]
  · rw [if_neg hpays]
    have hnonneg : 0 ≤ ∑ i ∈ some ∩ part, e i :=
      sum_nonneg fun i hi => (hgiven i (inter_subset_right hi)).1
    have hlow := h.low some hsome
    omega

end Spread
