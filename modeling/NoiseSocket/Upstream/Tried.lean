import Mathlib.Data.Nat.Bitwise
import NoiseSocket.Upstream.RoundRobin

open Exec Exec.Result

namespace ngx_nsoc_upstream

/-- Whether bit `i` is set; the words that are not allocated hold no bits. -/
def marked (tried : List Nat) (i : Nat) : Bool := (tried[i / 64]?.getD 0).testBit (i % 64)

/-- The bits of `n` peers are allocated. -/
def Room (tried : List Nat) (n : Nat) : Prop := words n ≤ tried.length

section

variable {tried : List Nat} {n i : Nat}

theorem Room.lt (h : Room tried n) (hi : i < n) : i / 64 < tried.length := by
  have hwords : words n ≤ tried.length := h
  unfold words at hwords
  omega

theorem Room.of_length {tried' : List Nat} (h : Room tried n) (hlength : tried'.length = tried.length) :
    Room tried' n := by
  rw [Room, hlength]
  exact h

theorem is_tried_eq_marked (h : i / 64 < tried.length) : is_tried tried i = ok (marked tried i) := by
  have hget : tried[i / 64]? = some tried[i / 64] := List.getElem?_eq_getElem h
  have hbit : (tried[i / 64] &&& 1 <<< (i % 64) ≠ 0) ↔ tried[i / 64].testBit (i % 64) = true := by
    rw [Nat.one_shiftLeft, Nat.and_two_pow]
    cases tried[i / 64].testBit (i % 64) <;> simp
  simp only [is_tried, marked, hget, Option.getD_some, hbit, Bool.decide_eq_true]

/-- The word of one index and the bit of another: two indices agree on both only if equal. -/
theorem eq_of_div_mod {i j : Nat} (hdiv : i / 64 = j / 64) (hmod : i % 64 = j % 64) : i = j := by
  have hi := Nat.div_add_mod i 64
  have hj := Nat.div_add_mod j 64
  omega

theorem set_tried_eq (h : i / 64 < tried.length) :
    ∃ tried', set_tried tried i = ok tried' ∧ tried'.length = tried.length ∧
      ∀ j, marked tried' j = (decide (j = i) || marked tried j) := by
  have hget : tried[i / 64]? = some tried[i / 64] := List.getElem?_eq_getElem h
  refine ⟨tried.set (i / 64) (tried[i / 64] ||| 1 <<< (i % 64)), by simp [set_tried, hget], by simp, ?_⟩
  intro j
  by_cases hword : i / 64 = j / 64
  · have hset : (tried.set (i / 64) (tried[i / 64] ||| 1 <<< (i % 64)))[j / 64]? =
        some (tried[i / 64] ||| 1 <<< (i % 64)) := by
      rw [← hword, List.getElem?_set_self h]
    have hold : tried[j / 64]? = some tried[i / 64] := by rw [← hword, hget]
    unfold marked
    rw [hset, hold]
    simp only [Option.getD_some, Nat.testBit_or, Nat.one_shiftLeft, Nat.testBit_two_pow]
    have heq : i % 64 = j % 64 ↔ j = i := by
      constructor
      · intro hmod
        exact (eq_of_div_mod hword hmod).symm
      · intro h
        rw [h]
    simp only [heq]
    exact Bool.or_comm _ _
  · have hne : j ≠ i := by
      intro h
      exact hword (by rw [h])
    simp [marked, List.getElem?_set_ne hword, hne]

theorem clear_tried_eq (h : Room tried n) :
    ∃ tried', clear_tried tried (words n) = ok tried' ∧ tried'.length = tried.length ∧
      ∀ j, j < n → marked tried' j = false := by
  have hwords : words n ≤ tried.length := h
  refine ⟨List.replicate (words n) 0 ++ tried.drop (words n), by simp [clear_tried, hwords], ?_, ?_⟩
  · rw [List.length_append, List.length_replicate, List.length_drop]
    omega
  · intro j hj
    have hword : j / 64 < words n := by
      unfold words
      omega
    have hzero : (List.replicate (words n) 0 ++ tried.drop (words n))[j / 64]? = some 0 := by
      rw [List.getElem?_append_left (by simpa using hword), List.getElem?_replicate, if_pos hword]
    simp [marked, hzero]

end

end ngx_nsoc_upstream
