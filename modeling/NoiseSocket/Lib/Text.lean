import Mathlib.Algebra.Ring.Nat

/-- The decimal digits of a number, as bytes. -/
def Text.decimal (n : Nat) : List UInt8 := (Nat.toDigits 10 n).map Char.toUInt8

namespace Text

theorem toNat_of_isDigit {c : Char} (h : c.isDigit = true) :
    48 ≤ c.toNat ∧ c.toNat ≤ 57 ∧ c.toUInt8.toNat = c.toNat := by
  simp only [Char.isDigit, Bool.and_eq_true, decide_eq_true_eq] at h
  obtain ⟨hle, hge⟩ := h
  have hle' : 48 ≤ c.toNat := hle
  have hge' : c.toNat ≤ 57 := hge
  refine ⟨hle', hge', ?_⟩
  have hmod : c.toUInt8.toNat = c.toNat % 2 ^ 8 := UInt32.toNat_toUInt8 c.val
  rw [hmod, Nat.mod_eq_of_lt (by omega)]

theorem digit_of_mem {b : UInt8} {n : Nat} (h : b ∈ decimal n) : 48 ≤ b.toNat ∧ b.toNat ≤ 57 := by
  obtain ⟨c, hc, rfl⟩ := List.mem_map.mp h
  obtain ⟨hle, hge, heq⟩ := toNat_of_isDigit (Nat.isDigit_of_mem_toDigits (by decide) (by decide) hc)
  rw [heq]
  exact ⟨hle, hge⟩

theorem length_decimal_le {n k : Nat} (hk : 0 < k) (h : n < 10 ^ k) : (decimal n).length ≤ k := by
  rw [decimal, List.length_map]
  exact (Nat.length_toDigits_le_iff (by decide) hk).mpr h

/-- The number that a text of digits stands for. -/
def value (l : List UInt8) : Nat := l.foldl (fun n b => 10 * n + (b.toNat - 48)) 0

theorem value_map (l : List Char) (h : ∀ c ∈ l, c.isDigit = true) (init : Nat) :
    (l.map Char.toUInt8).foldl (fun n b => 10 * n + (b.toNat - 48)) init = Nat.ofDigitChars 10 l init := by
  induction l generalizing init with
  | nil => rfl
  | cons c l ih =>
    have hc := (toNat_of_isDigit (h c List.mem_cons_self)).2.2
    rw [List.map_cons, List.foldl_cons, Nat.ofDigitChars_cons, hc]
    exact ih (fun c hc => h c (List.mem_cons_of_mem _ hc)) _

theorem value_decimal (n : Nat) : value (decimal n) = n := by
  have hdigits : ∀ c ∈ Nat.toDigits 10 n, c.isDigit = true := fun c hc =>
    Nat.isDigit_of_mem_toDigits (by decide) (by decide) hc
  rw [value, decimal, value_map _ hdigits, Nat.ofDigitChars_ten_toDigits]

theorem decimal_inj {m n : Nat} (h : decimal m = decimal n) : m = n := by
  rw [← value_decimal m, h, value_decimal]

/-- Zeros in front leave the number as it is. -/
theorem value_leftpad (k : Nat) (l : List UInt8) : value (l.leftpad k 48) = value l := by
  have hzeros : ∀ m, (List.replicate m (48 : UInt8)).foldl (fun n b => 10 * n + (b.toNat - 48)) 0 = 0 := by
    intro m
    induction m with
    | zero => rfl
    | succ m ih => rw [List.replicate_succ, List.foldl_cons]; exact ih
  rw [value, List.leftpad, List.foldl_append, hzeros, value]

section

variable {α : Type}

/-- Texts with a separator between them take one separator less than there are texts. -/
theorem length_intercalate (sep : List α) {l : List (List α)} (hl : l ≠ []) :
    (sep.intercalate l).length + sep.length = (l.map fun t => t.length + sep.length).sum := by
  induction l with
  | nil => exact absurd rfl hl
  | cons t l ih =>
    cases l with
    | nil => simp
    | cons u l =>
      have hrest := ih (by simp)
      rw [List.intercalate_cons_cons, List.length_append, List.length_append, List.map_cons, List.sum_cons]
      omega

/-- Where a member comes first is the same in both lists. -/
theorem append_cons_inj {c : α} {a b x y : List α} (ha : c ∉ a) (hb : c ∉ b)
    (h : a ++ c :: x = b ++ c :: y) : a = b ∧ x = y := by
  induction a generalizing b with
  | nil =>
    cases b with
    | nil => exact ⟨rfl, List.tail_eq_of_cons_eq h⟩
    | cons e b =>
      rw [List.nil_append, List.cons_append, List.cons.injEq] at h
      exact absurd (h.1 ▸ List.mem_cons_self) hb
  | cons d a ih =>
    cases b with
    | nil =>
      rw [List.nil_append, List.cons_append, List.cons.injEq] at h
      exact absurd (h.1 ▸ List.mem_cons_self) ha
    | cons e b =>
      rw [List.cons_append, List.cons_append, List.cons.injEq] at h
      obtain ⟨hde, h⟩ := h
      obtain ⟨hab, hxy⟩ := ih (fun hmem => ha (List.mem_cons_of_mem _ hmem))
        (fun hmem => hb (List.mem_cons_of_mem _ hmem)) h
      exact ⟨by rw [hde, hab], hxy⟩

/-- Texts without the first member of the separator can be read back from the joined text. -/
theorem intercalate_inj {c : α} {sep : List α} {l l' : List (List α)} (hl : l ≠ []) (hl' : l' ≠ [])
    (hc : ∀ t ∈ l, c ∉ t) (hc' : ∀ t ∈ l', c ∉ t)
    (h : (c :: sep).intercalate l = (c :: sep).intercalate l') : l = l' := by
  induction l generalizing l' with
  | nil => exact absurd rfl hl
  | cons t l ih =>
    cases l' with
    | nil => exact absurd rfl hl'
    | cons t' l' =>
      have ht := hc t List.mem_cons_self
      have ht' := hc' t' List.mem_cons_self
      cases l with
      | nil =>
        cases l' with
        | nil => simpa using h
        | cons u' l' =>
          simp only [List.intercalate_singleton, List.intercalate_cons_cons] at h
          exact absurd (h ▸ by simp) ht
      | cons u l =>
        cases l' with
        | nil =>
          simp only [List.intercalate_singleton, List.intercalate_cons_cons] at h
          exact absurd (h ▸ by simp) ht'
        | cons u' l' =>
          rw [List.intercalate_cons_cons, List.intercalate_cons_cons, List.append_assoc,
            List.append_assoc, List.cons_append, List.cons_append] at h
          obtain ⟨rfl, hbehind⟩ := append_cons_inj ht ht' h
          have hrest := ih (List.cons_ne_nil _ _) (List.cons_ne_nil _ _)
            (fun t ht => hc t (List.mem_cons_of_mem _ ht)) (fun t ht => hc' t (List.mem_cons_of_mem _ ht))
            (List.append_cancel_left hbehind)
          rw [hrest]

end

end Text
