import NoiseSocket.Lib.Base64
import NoiseSocket.NoiseProtocol.Keys.Loaded

open Exec Exec.Result

namespace ngx_noise_protocol

open ngx_nsoc

/-- The comparisons give back the digit of each character of the alphabet. -/
theorem key_char_char {digit : Nat} (h : digit < 64) :
    key_char (Base64.char digit) = .digit (UInt32.ofNat digit) := by
  have hall : ∀ d : Fin 64, key_char (Base64.char d) = .digit (UInt32.ofNat d) := by
    decide +kernel
  exact hall ⟨digit, h⟩

theorem key_char_pad : key_char Base64.pad = .pad := by decide

theorem toNat_digit {digit : Nat} (h : digit < 64) : (UInt32.ofNat digit).toNat = digit := by
  rw [UInt32.toNat_ofNat']
  exact Nat.mod_eq_of_lt (by omega)

/-- A digit enters a group at its low end; what was there before moves up and drops out in time. -/
theorem toNat_group (group : UInt32) {digit : Nat} (h : digit < 64) :
    ((group <<< 6) ||| UInt32.ofNat digit).toNat = (group.toNat * 64 + digit) % 2 ^ 32 := by
  have hshift : (group <<< 6).toNat = (group.toNat % 2 ^ 26) <<< 6 := by
    rw [UInt32.toNat_shiftLeft, Nat.shiftLeft_eq, Nat.shiftLeft_eq]
    simp only [UInt32.reduceToNat, Nat.reduceMod, Nat.reducePow]
    omega
  rw [UInt32.toNat_or, toNat_digit h, hshift, ← Nat.shiftLeft_add_eq_or_of_lt (show digit < 2 ^ 6 from h),
    Nat.shiftLeft_eq]
  omega

/-- The byte that a group holds above its lowest `n` bits. -/
theorem toUInt8_group {group : UInt32} {n : UInt32} {byte : UInt8}
    (h : group.toNat / 2 ^ (n.toNat % 32) % 256 = byte.toNat) : (group >>> n).toUInt8 = byte := by
  apply UInt8.toNat_inj.mp
  rw [← h, UInt32.toNat_toUInt8, UInt32.toNat_shiftRight, Nat.shiftRight_eq_div_pow]

/-- The decoder has stored `stored`, and the digits of its group add up to `value`. -/
structure KeyDecoder.Holds (stored : List UInt8) (size value : Nat) (k : KeyDecoder) : Prop where
  stored : k.stored = stored
  group_size : k.group_size = size
  group : k.group.toNat % 64 ^ size = value

section

variable {len value : Nat} {stored rest : List UInt8} {k : KeyDecoder}

/-- A digit of a group that it does not fill. -/
theorem KeyDecoder.push_digit (len : Nat) (digit : UInt32) {size : Nat} (hk : k.Holds stored size value)
    (hdigit : digit.toNat < 64) (hsize : size < 3) :
    ∃ k', KeyDecoder.push len { k with digit } = some k' ∧ k'.digit = digit ∧
      k'.Holds stored (size + 1) (value * 64 + digit.toNat) := by
  refine ⟨⟨(k.group <<< 6) ||| digit, size + 1, digit, stored⟩, ?_, rfl, rfl, rfl, ?_⟩
  · simp only [KeyDecoder.push, hk.group_size, hk.stored]
    rw [if_neg (by omega)]
  · have hgroup := toNat_group k.group hdigit
    have hold := hk.group
    rw [UInt32.ofNat_toNat] at hgroup
    obtain rfl | rfl | rfl : size = 0 ∨ size = 1 ∨ size = 2 := by omega
    all_goals
      dsimp only
      omega

/-- The digit that fills a group for which there is room. -/
theorem KeyDecoder.push_group (digit : UInt32) {a b c : UInt8} (hk : k.Holds stored 3 value)
    (hdigit : digit.toNat < 64) (hroom : stored.length + 3 ≤ len)
    (hgroup : value * 64 + digit.toNat = a.toNat * 65536 + b.toNat * 256 + c.toNat) :
    ∃ k', KeyDecoder.push len { k with digit } = some k' ∧ k'.digit = digit ∧
      k'.Holds (stored ++ [a, b, c]) 0 0 := by
  have hvalue := toNat_group k.group hdigit
  rw [UInt32.ofNat_toNat] at hvalue
  have hold := hk.group
  have ha := a.toNat_lt
  have hb := b.toNat_lt
  have hc := c.toNat_lt
  have hhigh : (((k.group <<< 6) ||| digit) >>> 16).toUInt8 = a := by
    apply toUInt8_group
    simp only [UInt32.reduceToNat, Nat.reduceMod, Nat.reducePow]
    omega
  have hmiddle : (((k.group <<< 6) ||| digit) >>> 8).toUInt8 = b := by
    apply toUInt8_group
    simp only [UInt32.reduceToNat, Nat.reduceMod, Nat.reducePow]
    omega
  have hlow : ((k.group <<< 6) ||| digit).toUInt8 = c := by
    apply UInt8.toNat_inj.mp
    rw [UInt32.toNat_toUInt8]
    omega
  refine ⟨⟨(k.group <<< 6) ||| digit, 0, digit, stored ++ [a, b, c]⟩, ?_, rfl, rfl, rfl, Nat.mod_one _⟩
  simp only [KeyDecoder.push, hk.group_size, hk.stored]
  rw [if_pos (by omega), if_neg (by omega), hhigh, hmiddle, hlow]

/-- The digit that fills a group for which there is no room. -/
theorem KeyDecoder.push_full (digit : UInt32) (hk : k.Holds stored 3 value)
    (hroom : len < stored.length + 3) : KeyDecoder.push len { k with digit } = none := by
  simp only [KeyDecoder.push, hk.group_size, hk.stored]
  rw [if_pos (by omega), if_pos (by omega)]

/-- A character of a group that it does not fill. -/
theorem load_public_key_loop_digit (digit : Nat) {size : Nat} (hk : k.Holds stored size value)
    (hdigit : digit < 64) (hsize : size < 3) : ∃ k', load_public_key_loop len k (Base64.char digit :: rest) =
      load_public_key_loop len k' rest ∧ k'.Holds stored (size + 1) (value * 64 + digit) := by
  have hnat := toNat_digit hdigit
  obtain ⟨k', hpush, -, hk'⟩ := KeyDecoder.push_digit len (UInt32.ofNat digit) hk
    (by rw [hnat]; exact hdigit) hsize
  refine ⟨k', ?_, ?_⟩
  · simp only [load_public_key_loop, key_char_char hdigit, hpush]
  · rwa [hnat] at hk'

/-- The character that fills a group. -/
theorem load_public_key_loop_group (digit : Nat) {a b c : UInt8} (hk : k.Holds stored 3 value)
    (hdigit : digit < 64) (hroom : stored.length + 3 ≤ len)
    (hgroup : value * 64 + digit = a.toNat * 65536 + b.toNat * 256 + c.toNat) :
    ∃ k', load_public_key_loop len k (Base64.char digit :: rest) = load_public_key_loop len k' rest ∧
      k'.Holds (stored ++ [a, b, c]) 0 0 := by
  have hnat := toNat_digit hdigit
  obtain ⟨k', hpush, -, hk'⟩ := KeyDecoder.push_group (UInt32.ofNat digit) hk
    (by rw [hnat]; exact hdigit) hroom (by rw [hnat]; exact hgroup)
  refine ⟨k', ?_, hk'⟩
  simp only [load_public_key_loop, key_char_char hdigit, hpush]

/-- The padding ends the text. -/
theorem load_public_key_loop_pad :
    load_public_key_loop len k (Base64.pad :: rest) = k.finish len := by
  rw [load_public_key_loop, key_char_pad]

/-- Two digits at the end of the text are one more byte. -/
theorem KeyDecoder.finish_byte {a : UInt8} (hk : k.Holds stored 2 value)
    (hvalue : value / 16 = a.toNat) (hroom : stored.length + 1 ≤ len) :
    k.finish len = (if stored.length + 1 < len then NGX_ERROR else NGX_OK, stored ++ [a]) := by
  have hold := hk.group
  have ha := a.toNat_lt
  have hbyte : (k.group >>> 4).toUInt8 = a := by
    apply toUInt8_group
    simp only [UInt32.reduceToNat, Nat.reduceMod, Nat.reducePow]
    omega
  simp only [KeyDecoder.finish, hk.group_size, hk.stored]
  rw [if_neg (by decide), if_pos trivial, if_neg (by omega), hbyte]
  simp only [List.length_append, List.length_singleton]

/-- Three digits at the end of the text are two more bytes. -/
theorem KeyDecoder.finish_bytes {a b : UInt8} (hk : k.Holds stored 3 value)
    (hvalue : value / 4 = a.toNat * 256 + b.toNat) (hroom : stored.length + 2 ≤ len) :
    k.finish len = (if stored.length + 2 < len then NGX_ERROR else NGX_OK, stored ++ [a, b]) := by
  have hold := hk.group
  have ha := a.toNat_lt
  have hb := b.toNat_lt
  have hhigh : (k.group >>> 10).toUInt8 = a := by
    apply toUInt8_group
    simp only [UInt32.reduceToNat, Nat.reduceMod, Nat.reducePow]
    omega
  have hlow : (k.group >>> 2).toUInt8 = b := by
    apply toUInt8_group
    simp only [UInt32.reduceToNat, Nat.reduceMod, Nat.reducePow]
    omega
  simp only [KeyDecoder.finish, hk.group_size, hk.stored]
  rw [if_pos trivial, if_neg (by omega), hhigh, hlow]
  simp only [List.length_append, List.length_cons, List.length_nil]

/-- The text of a key is decoded group by group. -/
theorem load_public_key_loop_encode (key : List UInt8) (hk : k.Holds stored 0 0)
    (hlen : stored.length + key.length = len) :
    load_public_key_loop len k (Base64.encode key) = (NGX_OK, stored ++ key) := by
  fun_induction Base64.encode key generalizing k stored with
  | case1 =>
    simp only [List.length_nil, Nat.add_zero] at hlen
    simp only [load_public_key_loop, KeyDecoder.finish, hk.group_size, hk.stored, List.append_nil]
    rw [if_neg (by decide), if_neg (by decide), if_neg (by omega)]
  | case2 a =>
    have hlen : stored.length + 1 = len := hlen
    have ha := a.toNat_lt
    obtain ⟨k₁, hfirst, hk₁⟩ := load_public_key_loop_digit (a.toNat / 4) hk (by omega) (by omega)
    obtain ⟨k₂, hsecond, hk₂⟩ :=
      load_public_key_loop_digit (a.toNat % 4 * 16) hk₁ (by omega) (by omega)
    rw [hfirst, hsecond, load_public_key_loop_pad]
    rw [KeyDecoder.finish_byte hk₂ (a := a) (by omega)
      (Nat.le_of_eq hlen), if_neg (Nat.not_lt_of_ge (Nat.le_of_eq hlen.symm))]
  | case3 a b =>
    have hlen : stored.length + 2 = len := hlen
    have ha := a.toNat_lt
    have hb := b.toNat_lt
    obtain ⟨k₁, hfirst, hk₁⟩ := load_public_key_loop_digit (a.toNat / 4) hk (by omega) (by omega)
    obtain ⟨k₂, hsecond, hk₂⟩ :=
      load_public_key_loop_digit (a.toNat % 4 * 16 + b.toNat / 16) hk₁ (by omega) (by omega)
    obtain ⟨k₃, hthird, hk₃⟩ :=
      load_public_key_loop_digit (b.toNat % 16 * 4) hk₂ (by omega) (by omega)
    rw [hfirst, hsecond, hthird, load_public_key_loop_pad]
    rw [KeyDecoder.finish_bytes hk₃ (a := a) (b := b) (by omega)
      (Nat.le_of_eq hlen), if_neg (Nat.not_lt_of_ge (Nat.le_of_eq hlen.symm))]
  | case4 a b c rest ih =>
    have ha := a.toNat_lt
    have hb := b.toNat_lt
    have hc := c.toNat_lt
    simp only [List.length_cons] at hlen
    obtain ⟨k₁, hfirst, hk₁⟩ := load_public_key_loop_digit (a.toNat / 4) hk (by omega) (by omega)
    obtain ⟨k₂, hsecond, hk₂⟩ :=
      load_public_key_loop_digit (a.toNat % 4 * 16 + b.toNat / 16) hk₁ (by omega) (by omega)
    obtain ⟨k₃, hthird, hk₃⟩ :=
      load_public_key_loop_digit (b.toNat % 16 * 4 + c.toNat / 64) hk₂ (by omega) (by omega)
    obtain ⟨k₄, hfourth, hk₄⟩ := load_public_key_loop_group (c.toNat % 64) (a := a) (b := b) (c := c)
      hk₃ (by omega) (show stored.length + 3 ≤ len by omega) (by omega)
    rw [hfirst, hsecond, hthird, hfourth, ih hk₄ (by simp; omega)]
    simp

end

/-- A public key file that holds the padded text of a key gives back the key, and what any file gives
lies below `len`, and fills it where the file is accepted. -/
theorem load_public_key_base64 :
    (∀ key : List UInt8, key.length ≤ NOISE_PROTOCOL_MAX_DH_KEY_LEN →
      load_public_key (some (Base64.encode key)) key.length = (NGX_OK, key)) ∧
    ∀ (file : KeyFile) (len : Nat), (load_public_key file len).2.length ≤ len ∧
      ((load_public_key file len).1 = NGX_OK → (load_public_key file len).2.length = len) := by
  constructor
  · intro key hlen
    rw [load_public_key, if_neg (by omega)]
    exact load_public_key_loop_encode key ⟨rfl, rfl, Nat.mod_one _⟩ (Nat.zero_add _)
  · intro file len
    refine ⟨?_, fun hrc => load_public_key_ok (Prod.ext hrc rfl)⟩
    unfold load_public_key
    split_ifs
    · exact Nat.zero_le len
    · cases file with
      | none => exact Nat.zero_le len
      | some bytes => exact (load_public_key_loop_length bytes (Nat.zero_le len)).1

theorem load_public_key_base64_four :
    load_public_key (some (Base64.encode [1, 2, 3, 4])) 4 = (NGX_OK, [1, 2, 3, 4]) :=
  load_public_key_base64.1 [1, 2, 3, 4] (by decide)

end ngx_noise_protocol
