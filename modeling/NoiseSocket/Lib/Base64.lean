import Mathlib.Data.List.Basic

namespace Base64

/-- The digits of the standard alphabet, in order. -/
def alphabet : List UInt8 :=
  "ABCDEFGHIJKLMNOPQRSTUVWXYZabcdefghijklmnopqrstuvwxyz0123456789+/".toList.map fun c =>
    UInt8.ofNat c.toNat

/-- The character of a six-bit digit. -/
def char (digit : Nat) : UInt8 := alphabet.getD digit 0

/-- The padding. -/
def pad : UInt8 := 61

/-- The standard text of some bytes: four characters for three bytes, the last group padded. -/
def encode : List UInt8 → List UInt8
  | [] => []
  | [a] => [char (a.toNat / 4), char (a.toNat % 4 * 16), pad, pad]
  | [a, b] =>
    [char (a.toNat / 4), char (a.toNat % 4 * 16 + b.toNat / 16), char (b.toNat % 16 * 4), pad]
  | a :: b :: c :: rest =>
    char (a.toNat / 4) :: char (a.toNat % 4 * 16 + b.toNat / 16) ::
      char (b.toNat % 16 * 4 + c.toNat / 64) :: char (c.toNat % 64) :: encode rest

example : encode [77, 97] = [84, 87, 69, 61] := by decide

/-- The bytes of some digits: three for each group of four, and what is whole of the rest. -/
def decode : List Nat → List UInt8
  | a :: b :: c :: d :: rest =>
    UInt8.ofNat (a * 4 + b / 16) :: UInt8.ofNat (b % 16 * 16 + c / 4) ::
      UInt8.ofNat (c % 4 * 64 + d) :: decode rest
  | [a, b, c] => [UInt8.ofNat (a * 4 + b / 16), UInt8.ofNat (b % 16 * 16 + c / 4)]
  | [a, b] => [UInt8.ofNat (a * 4 + b / 16)]
  | [_] => []
  | [] => []

/-- The number of bytes that `n` digits stand for. -/
def size (n : Nat) : Nat := n / 4 * 3 + (n % 4 - 1)

theorem size_le_size {m n : Nat} (h : m ≤ n) : size m ≤ size n := by
  unfold size
  omega

theorem length_decode (digits : List Nat) : (decode digits).length = size digits.length := by
  fun_induction decode digits with
  | case1 a b c d rest ih =>
    simp only [List.length_cons, ih, size]
    omega
  | case2 | case3 | case4 | case5 => simp [size]

theorem exists_group {digits : List Nat} {n : Nat} (h : n + 4 ≤ digits.length) :
    ∃ a b c d rest, digits = a :: b :: c :: d :: rest ∧ n ≤ rest.length := by
  match digits with
  | a :: b :: c :: d :: rest => exact ⟨a, b, c, d, rest, rfl, Nat.le_of_add_le_add_right h⟩
  | [] | [_] | [_, _] | [_, _, _] => simp at h

/-- The bytes of a group give back its digits. -/
theorem group_inj {a b c d a' b' c' d' : Nat} (ha : a < 64) (hb : b < 64) (hc : c < 64) (hd : d < 64)
    (ha' : a' < 64) (hb' : b' < 64) (hc' : c' < 64) (hd' : d' < 64)
    (hfirst : UInt8.ofNat (a * 4 + b / 16) = UInt8.ofNat (a' * 4 + b' / 16))
    (hsecond : UInt8.ofNat (b % 16 * 16 + c / 4) = UInt8.ofNat (b' % 16 * 16 + c' / 4))
    (hthird : UInt8.ofNat (c % 4 * 64 + d) = UInt8.ofNat (c' % 4 * 64 + d')) :
    a = a' ∧ b = b' ∧ c = c' ∧ d = d' := by
  have hfirst := congrArg UInt8.toNat hfirst
  have hsecond := congrArg UInt8.toNat hsecond
  have hthird := congrArg UInt8.toNat hthird
  simp only [UInt8.toNat_ofNat'] at hfirst hsecond hthird
  omega

/-- The bytes of the first `n` groups are the same exactly if their digits are. -/
theorem take_decode_inj (n : Nat) {digits digits' : List Nat} (h : ∀ d ∈ digits, d < 64)
    (h' : ∀ d ∈ digits', d < 64) (hlen : n * 4 ≤ digits.length) (hlen' : n * 4 ≤ digits'.length) :
    (decode digits).take (n * 3) = (decode digits').take (n * 3) ↔
      digits.take (n * 4) = digits'.take (n * 4) := by
  induction n generalizing digits digits' with
  | zero => simp
  | succ n ih =>
    rw [Nat.succ_mul] at hlen hlen'
    obtain ⟨a, b, c, d, rest, rfl, hrest⟩ := exists_group hlen
    obtain ⟨a', b', c', d', rest', rfl, hrest'⟩ := exists_group hlen'
    simp only [List.mem_cons, forall_eq_or_imp] at h h'
    obtain ⟨ha, hb, hc, hd, h⟩ := h
    obtain ⟨ha', hb', hc', hd', h'⟩ := h'
    simp only [decode, Nat.succ_mul, List.take_succ_cons, List.cons.injEq, ih h h' hrest hrest']
    constructor
    · intro ⟨hfirst, hsecond, hthird, htake⟩
      obtain ⟨rfl, rfl, rfl, rfl⟩ := group_inj ha hb hc hd ha' hb' hc' hd' hfirst hsecond hthird
      exact ⟨rfl, rfl, rfl, rfl, htake⟩
    · rintro ⟨rfl, rfl, rfl, rfl, htake⟩
      exact ⟨rfl, rfl, rfl, htake⟩

end Base64
