import NoiseSocket.NoiseProtocol.Keys.Encoded

open Exec Exec.Result

namespace ngx_noise_protocol

open ngx_nsoc

/-- The characters that the comparisons single out as blank. -/
def is_blank (ch : UInt8) : Prop := ch = 32 ∨ ch = 9 ∨ ch = 13 ∨ ch = 10

instance (ch : UInt8) : Decidable (is_blank ch) := inferInstanceAs (Decidable (_ ∨ _))

/-- The contents of a file without its blanks. -/
def strip (bytes : List UInt8) : List UInt8 := bytes.filter fun ch => ¬is_blank ch

/-- Whether a character that is not of the alphabet ends the text. -/
def foreign : List UInt8 → Bool
  | [] => false
  | ch :: rest =>
    match key_char ch with
    | .pad => false
    | .invalid => true
    | .digit _ | .blank => foreign rest

/-- The digits of the text. -/
def digits : List UInt8 → List Nat
  | [] => []
  | ch :: rest =>
    match key_char ch with
    | .pad | .invalid => []
    | .digit value => value.toNat :: digits rest
    | .blank => digits rest

/-- The digits of the text with one more for each blank, which is the digit before it. -/
def repeated_digits (digit : Nat) : List UInt8 → List Nat
  | [] => []
  | ch :: rest =>
    match key_char ch with
    | .pad | .invalid => []
    | .digit value => value.toNat :: repeated_digits value.toNat rest
    | .blank => digit :: repeated_digits digit rest

/-- What the return value is for a text of `n` digits, and how many bytes are stored. -/
def outcome (foreign : Bool) (len n : Nat) : Int × Nat :=
  if foreign then (NGX_ERROR, min (n / 4) (len / 3) * 3)
  else if len < Base64.size n then (NGX_ERROR, len / 3 * 3)
  else (if Base64.size n < len then NGX_ERROR else NGX_OK, Base64.size n)

theorem outcome_group (foreign : Bool) (n : Nat) {len : Nat} (h : 3 ≤ len) :
    outcome foreign len (n + 4) =
      ((outcome foreign (len - 3) n).1, (outcome foreign (len - 3) n).2 + 3) := by
  have hsize : Base64.size (n + 4) = Base64.size n + 3 := by
    unfold Base64.size
    omega
  have hover : len < Base64.size n + 3 ↔ len - 3 < Base64.size n := by omega
  have hless : Base64.size n + 3 < len ↔ Base64.size n < len - 3 := by omega
  have hgroups : min ((n + 4) / 4) (len / 3) * 3 = min (n / 4) ((len - 3) / 3) * 3 + 3 := by omega
  have hroom : len / 3 * 3 = (len - 3) / 3 * 3 + 3 := by omega
  unfold outcome
  rw [hsize]
  simp only [hover, hless, hgroups, hroom]
  split_ifs
  all_goals rfl

theorem outcome_full (foreign : Bool) {len n : Nat} (hn : 4 ≤ n) (hlen : len < 3) :
    outcome foreign len n = (NGX_ERROR, 0) := by
  have hsize : len < Base64.size n := by
    unfold Base64.size
    omega
  have hgroups : min (n / 4) (len / 3) * 3 = 0 := by omega
  have hroom : len / 3 * 3 = 0 := by omega
  unfold outcome
  rw [if_pos hsize, hgroups, hroom, ite_self]

theorem key_char_blank (ch : UInt8) : key_char ch = .blank ↔ is_blank ch := by
  have hall : ∀ n : Fin 256, key_char (UInt8.ofFin n) = .blank ↔ is_blank (UInt8.ofFin n) := by
    decide +kernel
  exact hall ch.toFin

theorem key_char_digit_lt {ch : UInt8} {value : UInt32} (h : key_char ch = .digit value) :
    value.toNat < 64 := by
  have hall : ∀ n : Fin 256, (match key_char (UInt8.ofFin n) with
      | .digit value => decide (value.toNat < 64)
      | _ => true) = true := by
    decide +kernel
  have hch := hall ch.toFin
  rw [UInt8.ofFin_toFin, h] at hch
  exact of_decide_eq_true hch

theorem repeated_digits_lt {digit : Nat} (h : digit < 64) (bytes : List UInt8) :
    ∀ d ∈ repeated_digits digit bytes, d < 64 := by
  induction bytes generalizing digit with
  | nil => simp [repeated_digits]
  | cons ch rest ih =>
    rw [repeated_digits]
    cases hkey : key_char ch with
    | pad | invalid => simp
    | blank => simpa [h] using ih h
    | digit value => simpa [key_char_digit_lt hkey] using ih (key_char_digit_lt hkey)

/-- Without its blanks a text has the same digits, none of them repeated. -/
theorem repeated_digits_strip (digit : Nat) (bytes : List UInt8) :
    repeated_digits digit (strip bytes) = digits bytes := by
  induction bytes generalizing digit with
  | nil => rfl
  | cons ch rest ih =>
    have hch := key_char_blank ch
    rw [strip] at ih ⊢
    cases hkey : key_char ch with
    | blank => rw [List.filter_cons_of_neg (by simpa using hch.mp hkey), ih, digits, hkey]
    | pad | invalid =>
      rw [List.filter_cons_of_pos (by simp [← hch, hkey]), repeated_digits, digits, hkey]
    | digit value =>
      rw [List.filter_cons_of_pos (by simp [← hch, hkey]), repeated_digits, digits, hkey]
      exact congrArg _ (ih _)

theorem foreign_strip (bytes : List UInt8) : foreign (strip bytes) = foreign bytes := by
  induction bytes with
  | nil => rfl
  | cons ch rest ih =>
    have hch := key_char_blank ch
    rw [strip] at ih ⊢
    cases hkey : key_char ch with
    | blank => rw [List.filter_cons_of_neg (by simpa using hch.mp hkey), ih, foreign, hkey]
    | pad | invalid =>
      rw [List.filter_cons_of_pos (by simp [← hch, hkey]), foreign, foreign, hkey]
    | digit value =>
      rw [List.filter_cons_of_pos (by simp [← hch, hkey]), foreign, foreign, hkey]
      exact ih

/-- Repeating digits makes the text longer, or leaves it as it is. -/
theorem repeated_digits_cases (digit : Nat) (bytes : List UInt8) :
    repeated_digits digit bytes = digits bytes ∨
      (digits bytes).length < (repeated_digits digit bytes).length := by
  induction bytes generalizing digit with
  | nil => exact .inl rfl
  | cons ch rest ih =>
    rw [repeated_digits, digits]
    cases key_char ch with
    | pad | invalid => exact .inl rfl
    | digit value => exact (ih value.toNat).imp (congrArg _) Nat.succ_lt_succ
    | blank =>
      right
      obtain hrest | hrest := ih digit
      · simp [hrest]
      · exact Nat.lt_succ_of_lt hrest

/-- The loop with the digits that the characters give it. -/
def load_digits (len : Nat) (foreign : Bool) (k : KeyDecoder) : List Nat → Int × List UInt8
  | [] => if foreign then (NGX_ERROR, k.stored) else k.finish len
  | digit :: rest =>
    match KeyDecoder.push len { k with digit := UInt32.ofNat digit } with
    | none => (NGX_ERROR, k.stored)
    | some k => load_digits len foreign k rest

theorem KeyDecoder.push_digit_eq {len : Nat} {k k' : KeyDecoder} (h : k.push len = some k') :
    k'.digit = k.digit := by
  unfold KeyDecoder.push at h
  dsimp only at h
  split_ifs at h
  all_goals
    obtain rfl := Option.some.inj h
    rfl

/-- The code behind the comparisons does not tell a blank from the digit before it. -/
theorem load_public_key_loop_eq (len : Nat) (bytes : List UInt8) (k : KeyDecoder) :
    load_public_key_loop len k bytes =
      load_digits len (foreign bytes) k (repeated_digits k.digit.toNat bytes) := by
  induction bytes generalizing k with
  | nil => rfl
  | cons ch rest ih =>
    rw [load_public_key_loop, repeated_digits, foreign]
    cases key_char ch with
    | pad | invalid => rfl
    | digit value =>
      simp only [load_digits, UInt32.ofNat_toNat]
      cases hpush : KeyDecoder.push len { k with digit := value } with
      | none => rfl
      | some k' =>
        have hdigit := KeyDecoder.push_digit_eq hpush
        simp only [ih, hdigit]
    | blank =>
      simp only [load_digits, UInt32.ofNat_toNat]
      cases hpush : k.push len with
      | none => rfl
      | some k' =>
        have hdigit := KeyDecoder.push_digit_eq hpush
        simp only [ih, hdigit]

section

variable {len value : Nat} {stored : List UInt8} {k : KeyDecoder} {foreign : Bool}

/-- A digit of a group that it does not fill. -/
theorem load_digits_cons {digit size : Nat} (rest : List Nat) (hk : k.Holds stored size value)
    (hdigit : digit < 64) (hsize : size < 3) :
    ∃ k', load_digits len foreign k (digit :: rest) = load_digits len foreign k' rest ∧
      k'.Holds stored (size + 1) (value * 64 + digit) := by
  have hnat := toNat_digit hdigit
  obtain ⟨k', hpush, -, hk'⟩ := KeyDecoder.push_digit len (UInt32.ofNat digit) hk
    (by rw [hnat]; exact hdigit) hsize
  rw [hnat] at hk'
  refine ⟨k', ?_, hk'⟩
  simp only [load_digits, hpush]

/-- An unfinished group for which there is no room. -/
theorem finish_full {size : Nat} (hk : k.Holds stored size value) (hlen : stored.length ≤ len)
    (hsize : size < 4) (hroom : len < stored.length + Base64.size size) :
    k.finish len = (NGX_ERROR, stored) := by
  simp only [KeyDecoder.finish, hk.group_size, hk.stored]
  unfold Base64.size at hroom
  obtain rfl | rfl : size = 2 ∨ size = 3 := by omega
  · rw [if_neg (by decide), if_pos rfl, if_pos (by omega)]
  · rw [if_pos rfl, if_pos (by omega)]

/-- What the digits of an unfinished group come to at the end of the text. -/
theorem load_digits_nil {size : Nat} {tail : List UInt8} (hk : k.Holds stored size value)
    (hlen : stored.length ≤ len) (hsize : size < 4) (htail : tail.length = Base64.size size)
    (hfinish : stored.length + tail.length ≤ len → k.finish len =
      (if stored.length + tail.length < len then NGX_ERROR else NGX_OK, stored ++ tail)) :
    load_digits len foreign k [] = ((outcome foreign (len - stored.length) size).1,
      stored ++ tail.take (outcome foreign (len - stored.length) size).2) := by
  have hsize_le : Base64.size size ≤ 2 := by
    unfold Base64.size
    omega
  cases foreign with
  | true =>
    have hnone : min (size / 4) ((len - stored.length) / 3) * 3 = 0 := by omega
    simp only [load_digits, outcome, if_true, hnone, List.take_zero, List.append_nil, hk.stored]
  | false =>
    simp only [load_digits, outcome, Bool.false_eq_true, if_false]
    by_cases hroom : len < stored.length + Base64.size size
    · have hnone : (len - stored.length) / 3 * 3 = 0 := by omega
      rw [finish_full hk hlen hsize hroom, if_pos (by omega)]
      simp only [hnone, List.take_zero, List.append_nil]
    · rw [htail] at hfinish
      rw [hfinish (Nat.le_of_not_lt hroom),
        if_neg (show ¬len - stored.length < Base64.size size by omega)]
      have hless : stored.length + Base64.size size < len ↔
          Base64.size size < len - stored.length := by omega
      simp only [hless, List.take_of_length_le (Nat.le_of_eq htail)]

/-- The digits are decoded group by group, as far as there is room. -/
theorem load_digits_eq {digits : List Nat} (hdigits : ∀ d ∈ digits, d < 64) (hk : k.Holds stored 0 0)
    (hlen : stored.length ≤ len) :
    load_digits len foreign k digits = ((outcome foreign (len - stored.length) digits.length).1,
      stored ++ (Base64.decode digits).take (outcome foreign (len - stored.length) digits.length).2) := by
  fun_induction Base64.decode digits generalizing k stored with
  | case1 a b c d rest ih =>
    simp only [List.mem_cons, forall_eq_or_imp] at hdigits
    obtain ⟨ha, hb, hc, hd, hrest⟩ := hdigits
    obtain ⟨k₁, hfirst, hk₁⟩ := load_digits_cons (b :: c :: d :: rest) hk ha (by omega)
    obtain ⟨k₂, hsecond, hk₂⟩ := load_digits_cons (c :: d :: rest) hk₁ hb (by omega)
    obtain ⟨k₃, hthird, hk₃⟩ := load_digits_cons (d :: rest) hk₂ hc (by omega)
    rw [hfirst, hsecond, hthird]
    by_cases hroom : stored.length + 3 ≤ len
    · obtain ⟨k₄, hpush, -, hk₄⟩ := KeyDecoder.push_group (UInt32.ofNat d) hk₃
        (a := UInt8.ofNat (a * 4 + b / 16)) (b := UInt8.ofNat (b % 16 * 16 + c / 4))
        (c := UInt8.ofNat (c % 4 * 64 + d)) (by rw [toNat_digit hd]; exact hd) hroom
        (by rw [toNat_digit hd]; simp only [UInt8.toNat_ofNat']; omega)
      have hlen₄ : (stored ++ [UInt8.ofNat (a * 4 + b / 16), UInt8.ofNat (b % 16 * 16 + c / 4),
          UInt8.ofNat (c % 4 * 64 + d)]).length = stored.length + 3 := by simp
      simp only [load_digits, hpush]
      rw [ih hrest hk₄ (by omega), hlen₄, ← Nat.sub_sub, List.length_cons, List.length_cons,
        List.length_cons, List.length_cons, outcome_group _ _ (by omega)]
      simp
    · have hpush := KeyDecoder.push_full (UInt32.ofNat d) hk₃ (Nat.lt_of_not_le hroom)
      have hnone : outcome foreign (len - stored.length) (a :: b :: c :: d :: rest).length =
          (NGX_ERROR, 0) := outcome_full _ (by simp) (by omega)
      simp only [load_digits, hpush, hnone, List.take_zero, List.append_nil]
      rw [hk₃.stored]
  | case2 a b c =>
    simp only [List.mem_cons, forall_eq_or_imp] at hdigits
    obtain ⟨ha, hb, hc, -⟩ := hdigits
    obtain ⟨k₁, hfirst, hk₁⟩ := load_digits_cons [b, c] hk ha (by omega)
    obtain ⟨k₂, hsecond, hk₂⟩ := load_digits_cons [c] hk₁ hb (by omega)
    obtain ⟨k₃, hthird, hk₃⟩ := load_digits_cons [] hk₂ hc (by omega)
    rw [hfirst, hsecond, hthird]
    apply load_digits_nil hk₃ hlen (by omega) rfl
    apply KeyDecoder.finish_bytes hk₃
    simp only [UInt8.toNat_ofNat']
    omega
  | case3 a b =>
    simp only [List.mem_cons, forall_eq_or_imp] at hdigits
    obtain ⟨ha, hb, -⟩ := hdigits
    obtain ⟨k₁, hfirst, hk₁⟩ := load_digits_cons [b] hk ha (by omega)
    obtain ⟨k₂, hsecond, hk₂⟩ := load_digits_cons [] hk₁ hb (by omega)
    rw [hfirst, hsecond]
    apply load_digits_nil hk₂ hlen (by omega) rfl
    apply KeyDecoder.finish_byte hk₂
    simp only [UInt8.toNat_ofNat']
    omega
  | case4 a =>
    simp only [List.mem_cons, forall_eq_or_imp] at hdigits
    obtain ⟨k₁, hfirst, hk₁⟩ := load_digits_cons [] hk hdigits.1 (by omega)
    rw [hfirst]
    apply load_digits_nil hk₁ hlen (by omega) rfl
    intro _
    simp [KeyDecoder.finish, hk₁.group_size, hk₁.stored]
  | case5 =>
    apply load_digits_nil hk hlen (by omega) rfl
    intro _
    simp [KeyDecoder.finish, hk.group_size, hk.stored]

end

theorem load_public_key_some (bytes : List UInt8) {len : Nat}
    (hlen : len ≤ NOISE_PROTOCOL_MAX_DH_KEY_LEN) :
    load_public_key (some bytes) len =
      ((outcome (foreign bytes) len (repeated_digits 0 bytes).length).1,
        (Base64.decode (repeated_digits 0 bytes)).take
          (outcome (foreign bytes) len (repeated_digits 0 bytes).length).2) := by
  rw [load_public_key, if_neg (Nat.not_lt_of_le hlen), load_public_key_loop_eq]
  have hstart : KeyDecoder.Holds [] 0 0 ⟨0, 0, 0, []⟩ := ⟨rfl, rfl, Nat.mod_one _⟩
  exact load_digits_eq (repeated_digits_lt (by decide) bytes) hstart (Nat.zero_le len)

/-- A text of `m` digits is refused or accepted like one of `n` digits, which is shorter, with as many
bytes stored. -/
def Alike (foreign : Bool) (len m n : Nat) : Prop :=
  if foreign then min (m / 4) (len / 3) = min (n / 4) (len / 3)
  else len < Base64.size n ∨ Base64.size m = Base64.size n ∨
    Base64.size n = len / 3 * 3 ∧ Base64.size n < len ∧ len < Base64.size m

/-- The blanks of a file make no difference: there are none before the text ends, or the text comes to
the same with a digit more for each, and the groups that are stored have the same digits. -/
def BlanksHarmless (len : Nat) (bytes : List UInt8) : Prop :=
  repeated_digits 0 bytes = digits bytes ∨
    Alike (foreign bytes) len (repeated_digits 0 bytes).length (digits bytes).length ∧
      (repeated_digits 0 bytes).take (min ((digits bytes).length / 4) (len / 3) * 4) =
        (digits bytes).take (min ((digits bytes).length / 4) (len / 3) * 4)

theorem outcome_snd_le (foreign : Bool) (len n : Nat) :
    (outcome foreign len n).2 ≤ Base64.size n := by
  unfold outcome Base64.size
  split_ifs
  all_goals
    dsimp only
    omega

theorem outcome_eq_iff {foreign : Bool} {len m n : Nat} (h : n < m) :
    outcome foreign len m = outcome foreign len n ↔ Alike foreign len m n := by
  have hsize := Base64.size_le_size (Nat.le_of_lt h)
  unfold outcome Alike
  cases foreign with
  | true => simp only [if_true, Prod.mk.injEq, true_and, Nat.mul_left_inj (show 3 ≠ 0 by decide)]
  | false =>
    simp only [Bool.false_eq_true, if_false]
    by_cases hless : len < Base64.size n
    · rw [if_pos (Nat.lt_of_lt_of_le hless hsize), if_pos hless]
      exact iff_of_true rfl (.inl hless)
    rw [if_neg hless, or_iff_right hless]
    by_cases hmore : len < Base64.size m
    · rw [if_pos hmore, or_iff_right (by omega), Prod.mk.injEq]
      constructor
      · intro ⟨hrc, hcount⟩
        refine ⟨hcount.symm, ?_, hmore⟩
        by_contra hfull
        rw [if_neg hfull] at hrc
        contradiction
      · intro ⟨hcount, hpart, _⟩
        rw [if_pos hpart]
        exact ⟨rfl, hcount.symm⟩
    · rw [if_neg hmore, or_iff_left (fun hthree => hmore hthree.2.2), Prod.mk.injEq]
      constructor
      · exact fun heq => heq.2
      · intro heq
        rw [heq]
        exact ⟨rfl, rfl⟩

/-- What a text has stored, where one with more digits would store as much, are whole groups. -/
theorem outcome_snd {foreign : Bool} {len m n : Nat} (h : n < m) (halike : Alike foreign len m n) :
    (outcome foreign len n).2 = min (n / 4) (len / 3) * 3 := by
  cases foreign with
  | true => rfl
  | false =>
    simp only [Alike, outcome, Bool.false_eq_true, if_false] at halike ⊢
    by_cases hless : len < Base64.size n
    · rw [if_pos hless]
      unfold Base64.size at hless
      omega
    · rw [if_neg hless]
      unfold Base64.size at halike hless ⊢
      omega

/-- The loader does not tell a file from the one without its blanks exactly if the length is refused
at once or the repeated digits do no harm. -/
theorem load_public_key_strip (bytes : List UInt8) (len : Nat) :
    load_public_key (some bytes) len = load_public_key (some (strip bytes)) len ↔
      NOISE_PROTOCOL_MAX_DH_KEY_LEN < len ∨ BlanksHarmless len bytes := by
  by_cases hmax : NOISE_PROTOCOL_MAX_DH_KEY_LEN < len
  · simp [load_public_key, hmax]
  have hlen := Nat.le_of_not_lt hmax
  rw [load_public_key_some bytes hlen, load_public_key_some (strip bytes) hlen, foreign_strip,
    repeated_digits_strip, or_iff_right hmax, BlanksHarmless]
  obtain hsame | hmore := repeated_digits_cases 0 bytes
  · simp [hsame]
  have hne : repeated_digits 0 bytes ≠ digits bytes := by
    intro heq
    rw [heq] at hmore
    exact absurd hmore (Nat.lt_irrefl _)
  rw [or_iff_right hne]
  have hlt := repeated_digits_lt (show 0 < 64 by decide) bytes
  have hlt' := repeated_digits_lt (show 0 < 64 by decide) (strip bytes)
  rw [repeated_digits_strip] at hlt'
  generalize repeated_digits 0 bytes = more at *
  generalize digits bytes = less at *
  generalize foreign bytes = foreign at *
  have hgroups := Base64.take_decode_inj (min (less.length / 4) (len / 3)) hlt hlt' (by omega) (by omega)
  constructor
  · intro heq
    obtain ⟨hrc, hstored⟩ := Prod.mk.inj heq
    have hcount := congrArg List.length hstored
    rw [List.length_take_of_le (by rw [Base64.length_decode]; exact outcome_snd_le _ _ _),
      List.length_take_of_le (by rw [Base64.length_decode]; exact outcome_snd_le _ _ _)] at hcount
    have halike := (outcome_eq_iff hmore).mp (Prod.ext hrc hcount)
    rw [hcount, outcome_snd hmore halike] at hstored
    exact ⟨halike, hgroups.mp hstored⟩
  · rintro ⟨halike, htake⟩
    rw [(outcome_eq_iff hmore).mpr halike, outcome_snd hmore halike, hgroups.mpr htake]

/-- A text wrapped after its second digit is accepted as another key: `QU`, a newline and `JD` are not
`ABC`. -/
theorem load_public_key_of_wrapped :
    load_public_key (some [81, 85, 10, 74, 68]) 3 = (NGX_OK, [65, 69, 9]) ∧
      strip [81, 85, 10, 74, 68] = [81, 85, 74, 68] ∧
      load_public_key (some [81, 85, 74, 68]) 3 = (NGX_OK, [65, 66, 67]) ∧
      ¬∀ (bytes : List UInt8) (len : Nat),
        load_public_key (some bytes) len = load_public_key (some (strip bytes)) len := by
  have hwrapped : load_public_key (some [81, 85, 10, 74, 68]) 3 = (NGX_OK, [65, 69, 9]) := by
    decide +kernel
  have hstrip : strip [81, 85, 10, 74, 68] = [81, 85, 74, 68] := by decide
  have hplain : load_public_key (some [81, 85, 74, 68]) 3 = (NGX_OK, [65, 66, 67]) := by
    decide +kernel
  refine ⟨hwrapped, hstrip, hplain, fun h => ?_⟩
  have hsame := h [81, 85, 10, 74, 68] 3
  rw [hwrapped, hstrip, hplain] at hsame
  exact absurd hsame (by decide)

end ngx_noise_protocol
