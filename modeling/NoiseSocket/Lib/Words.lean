import Mathlib.Algebra.Order.Ring.Int
import Mathlib.Data.List.Basic
import NoiseSocket.Lib.Result

/-! Little-endian words in a sequence of bytes. -/

open Exec Exec.Result

namespace Words

/-- The bytes of a word of the given width, the lowest first. -/
def encode : Nat → Nat → List UInt8
  | 0, _ => []
  | width + 1, n => UInt8.ofNat n :: encode width (n / 256)

/-- The word that bytes stand for. -/
def decode : List UInt8 → Nat
  | [] => 0
  | b :: bytes => b.toNat + 256 * decode bytes

@[simp]
theorem length_encode (width n : Nat) : (encode width n).length = width := by
  induction width generalizing n with
  | zero => rfl
  | succ width ih => rw [encode, List.length_cons, ih]

theorem decode_encode {width n : Nat} (h : n < 256 ^ width) : decode (encode width n) = n := by
  induction width generalizing n with
  | zero =>
    rw [Nat.pow_zero] at h
    rw [encode, decode]
    omega
  | succ width ih =>
    have hdiv : n / 256 < 256 ^ width := by
      rw [Nat.div_lt_iff_lt_mul (by omega), ← Nat.pow_succ]
      exact h
    have hbyte : (UInt8.ofNat n).toNat = n % 256 := UInt8.toNat_ofNat'
    rw [encode, decode, ih hdiv, hbyte]
    omega

/-- The word of the given width at an offset, where the bytes reach that far. -/
def fetch (width : Nat) (bytes : List UInt8) (offset : Nat) : Result Nat :=
  if offset + width ≤ bytes.length then ok (decode ((bytes.drop offset).take width)) else fault

/-- A word is read back from where it was put. -/
theorem fetch_encode {width n : Nat} (h : n < 256 ^ width) {bytes before after : List UInt8}
    (hbytes : bytes = before ++ (encode width n ++ after)) {offset : Nat} (hoffset : offset = before.length) :
    fetch width bytes offset = ok n := by
  subst hbytes hoffset
  rw [fetch, if_pos (by simp only [List.length_append, length_encode]; omega), List.drop_left,
    List.take_left' (length_encode width n), decode_encode h]

end Words
