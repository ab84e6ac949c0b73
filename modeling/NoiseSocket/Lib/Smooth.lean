import Mathlib.Algebra.BigOperators.Group.Finset.Basic
import Mathlib.Algebra.Order.BigOperators.Group.Finset
import Mathlib.Algebra.BigOperators.Ring.Finset
import Mathlib.Data.List.Count
import Mathlib.Tactic.Common
import Mathlib.Tactic.Linarith
import Mathlib.Tactic.Ring

/-!
Smooth weighted round robin: every round each member's credit grows by its weight, the
first member with the greatest credit is picked, and it pays the total weight back.
-/

namespace Smooth

open Finset

section

variable {ι : Type*} [LinearOrder ι] {w c : ι → ℤ} {i j : ι}

/-- `i` is the first member with the greatest credit. -/
structure First (w c : ι → ℤ) (i : ι) : Prop where
  greatest : ∀ j, c j + w j ≤ c i + w i
  first : ∀ j, j < i → c j + w j < c i + w i

theorem First.unique (hi : First w c i) (hj : First w c j) : i = j := by
  obtain hlt | heq | hlt := lt_trichotomy i j
  · have hless := hj.first i hlt
    have hle := hi.greatest j
    omega
  · exact heq
  · have hless := hi.first j hlt
    have hle := hj.greatest i
    omega

end

variable {ι : Type*} [Fintype ι]

/-- What a pick costs. -/
def total (w : ι → ℤ) : ℤ := ∑ j, w j

/-- Nobody's credit is a whole round below zero, and the credits add up to zero. -/
structure Balanced (w c : ι → ℤ) : Prop where
  sum : ∑ j, c j = 0
  low : ∀ j, -total w < c j

theorem balanced_zero {w : ι → ℤ} (hw : 0 < total w) : Balanced w (0 : ι → ℤ) :=
  ⟨by simp, fun j => by simpa using hw⟩

variable [LinearOrder ι] {w c c' c'' : ι → ℤ} {i j : ι} {picks : List ι}

/-- The credits behind a round that picks `i`. -/
def pay (w c : ι → ℤ) (i : ι) : ι → ℤ := fun j => c j + w j - if j = i then total w else 0

/-- Rounds from the credits `c` on, with what they pick. -/
inductive Rounds (w : ι → ℤ) : (ι → ℤ) → List ι → (ι → ℤ) → Prop where
  | nil (c : ι → ℤ) : Rounds w c [] c
  | cons {c c' : ι → ℤ} {i : ι} {picks : List ι} (hfirst : First w c i)
      (hrest : Rounds w (pay w c i) picks c') : Rounds w c (i :: picks) c'

theorem Rounds.append {more : List ι} (h : Rounds w c picks c') (h' : Rounds w c' more c'') :
    Rounds w c (picks ++ more) c'' := by
  induction h with
  | nil => exact h'
  | cons hfirst hrest ih => exact .cons hfirst (ih h')

theorem Rounds.split {first rest : List ι} (h : Rounds w c (first ++ rest) c'') :
    ∃ c', Rounds w c first c' ∧ Rounds w c' rest c'' := by
  induction first generalizing c with
  | nil => exact ⟨c, .nil c, h⟩
  | cons i first ih =>
    cases h with
    | cons hfirst hrest =>
      obtain ⟨c', hleft, hright⟩ := ih hrest
      exact ⟨c', .cons hfirst hleft, hright⟩

/-- The rounds are determined by the credits they start with. -/
theorem Rounds.unique {picks' : List ι} (h : Rounds w c picks c') (h' : Rounds w c picks' c'')
    (hlen : picks.length = picks'.length) : picks = picks' ∧ c' = c'' := by
  induction h generalizing picks' with
  | nil c =>
    obtain rfl : picks' = [] := List.eq_nil_of_length_eq_zero hlen.symm
    cases h'
    exact ⟨rfl, rfl⟩
  | @cons c c' i picks hfirst hrest ih =>
    cases h' with
    | nil => simp at hlen
    | cons hfirst' hrest' =>
      obtain rfl := hfirst.unique hfirst'
      obtain ⟨rfl, rfl⟩ := ih hrest' (Nat.succ.inj hlen)
      exact ⟨rfl, rfl⟩

/-- The greatest credit is positive, as the credits add up to the total weight. -/
theorem First.pos (h : First w c i) (hc : Balanced w c) (hw : 0 < total w) : 0 < c i + w i := by
  by_contra hneg
  have hall : ∑ j, (c j + w j) ≤ 0 := by
    apply sum_nonpos
    intro j _
    have hle := h.greatest j
    omega
  rw [sum_add_distrib, hc.sum] at hall
  have htotal : total w = ∑ j, w j := rfl
  omega

theorem Balanced.pay (hc : Balanced w c) (hw : ∀ j, 0 < w j) (h : First w c i) :
    Balanced w (pay w c i) := by
  have hpos : 0 < total w := lt_of_lt_of_le (hw i)
    (single_le_sum (fun j _ => (hw j).le) (mem_univ i))
  constructor
  · have hpaid : ∑ j, (if j = i then total w else 0) = total w := by simp
    simp only [Smooth.pay, sum_sub_distrib, sum_add_distrib, hc.sum, hpaid]
    simp [total]
  · intro j
    have hlow := hc.low j
    have hwj := hw j
    by_cases hj : j = i
    · subst hj
      have hcredit := h.pos hc hpos
      simp only [Smooth.pay, if_true]
      omega
    · simp only [Smooth.pay, if_neg hj]
      omega

theorem Rounds.balanced (h : Rounds w c picks c') (hw : ∀ j, 0 < w j) (hc : Balanced w c) :
    Balanced w c' := by
  induction h with
  | nil => exact hc
  | cons hfirst _ ih => exact ih (hc.pay hw hfirst)

/-- Credits are what the weights gave, less what the picks cost. -/
theorem Rounds.credit (h : Rounds w c picks c') (j : ι) :
    c' j = c j + picks.length * w j - total w * picks.count j := by
  induction h with
  | nil => simp
  | @cons c c' i picks hfirst hrest ih =>
    rw [ih, List.length_cons, List.count_cons]
    by_cases hj : i = j
    · subst hj
      simp only [pay, if_true, beq_self_eq_true]
      push_cast
      ring
    · have hji : ¬ j = i := fun heq => hj heq.symm
      simp only [pay, if_neg hji, beq_iff_eq, hj, if_false]
      push_cast
      ring

theorem sum_count (picks : List ι) : ∑ j, (picks.count j : ℤ) = picks.length := by
  induction picks with
  | nil => simp
  | cons i picks ih =>
    have hone : ∑ j, (if i = j then (1 : ℤ) else 0) = 1 := by simp
    simp only [List.count_cons, List.length_cons, beq_iff_eq]
    push_cast
    rw [sum_add_distrib, ih, hone]

/-- A whole period from zero on picks everybody as often as its weight says, and leads
back to zero. -/
theorem Rounds.period (h : Rounds w (0 : ι → ℤ) picks c) (hw : ∀ j, 0 < w j)
    (hlen : (picks.length : ℤ) = total w) : (∀ j, (picks.count j : ℤ) = w j) ∧ c = 0 := by
  obtain hempty | ⟨⟨i⟩⟩ := isEmpty_or_nonempty ι
  · exact ⟨fun j => hempty.elim j, funext fun j => hempty.elim j⟩
  have hpos : 0 < total w := lt_of_lt_of_le (hw i)
    (single_le_sum (fun j _ => (hw j).le) (mem_univ i))
  have hbalanced := h.balanced hw (balanced_zero hpos)
  have hcredit : ∀ j, c j = total w * (w j - picks.count j) := by
    intro j
    rw [h.credit j, hlen]
    simp only [Pi.zero_apply]
    ring
  have hle : ∀ j, (picks.count j : ℤ) ≤ w j := by
    intro j
    by_contra hmore
    have hone : w j - picks.count j ≤ -1 := by omega
    have hlow := hbalanced.low j
    rw [hcredit j] at hlow
    have hmul := mul_le_mul_of_nonneg_left hone hpos.le
    linarith
  have hcount : ∀ j, (picks.count j : ℤ) = w j := by
    have hsum : ∑ j, (picks.count j : ℤ) = ∑ j, w j := by
      rw [sum_count, hlen]
      rfl
    intro j
    exact (sum_eq_sum_iff_of_le fun j _ => hle j).mp hsum j (mem_univ j)
  refine ⟨hcount, funext fun j => ?_⟩
  rw [hcredit j, hcount j]
  simp

/-- Any window of that length is as fair, and leads back to where it started: the rounds
in front of it come again behind the first period. -/
theorem Rounds.window {before window : List ι} (h : Rounds w (0 : ι → ℤ) before c)
    (h' : Rounds w c window c') (hw : ∀ j, 0 < w j) (hlen : (window.length : ℤ) = total w) :
    (∀ j, (window.count j : ℤ) = w j) ∧ c' = c := by
  have hall := h.append h'
  obtain ⟨first, again, hsplit, hfirst⟩ :
      ∃ first again, before ++ window = first ++ again ∧ first.length = window.length :=
    ⟨(before ++ window).take window.length, (before ++ window).drop window.length,
      (List.take_append_drop _ _).symm, by simp⟩
  have hagain : again.length = before.length := by
    have hcount := congrArg List.length hsplit
    simp only [List.length_append] at hcount
    omega
  rw [hsplit] at hall
  obtain ⟨zero, hperiod, hrest⟩ := hall.split
  obtain ⟨hfair, rfl⟩ := hperiod.period hw (by rw [hfirst, hlen])
  obtain ⟨rfl, rfl⟩ := hrest.unique h hagain
  refine ⟨fun j => ?_, rfl⟩
  have hcount := congrArg (List.count j) hsplit
  simp only [List.count_append] at hcount
  rw [← hfair j]
  omega

end Smooth
