import NoiseSocket.NoiseProtocol.Keys

open Exec Exec.Result

namespace ngx_noise_protocol

open ngx_nsoc

/-- A private key that was loaded is what the file holds. -/
theorem load_private_key_loop_ok {len : Nat} {stored rest key : List UInt8}
    (h : load_private_key_loop len stored rest = (NGX_OK, key)) :
    key = stored ++ rest ∧ len ≤ key.length := by
  induction rest generalizing stored with
  | nil =>
    simp only [load_private_key_loop, Prod.mk.injEq] at h
    obtain ⟨hrc, rfl⟩ := h
    split_ifs at hrc with hlt
    · simp at hrc
    · exact ⟨by simp, by omega⟩
  | cons ch rest ih =>
    simp only [load_private_key_loop] at h
    split_ifs at h with hfull
    · simp at h
    · obtain ⟨hkey, hlen⟩ := ih h
      exact ⟨by simpa using hkey, hlen⟩

/-- Neither loader stores more than `len` bytes. -/
theorem load_private_key_loop_length_le {len : Nat} {stored : List UInt8} (rest : List UInt8)
    (h : stored.length ≤ len) : (load_private_key_loop len stored rest).2.length ≤ len := by
  induction rest generalizing stored with
  | nil => exact h
  | cons ch rest ih =>
    simp only [load_private_key_loop]
    split_ifs with hfull
    · exact h
    · apply ih
      simp only [List.length_append, List.length_cons, List.length_nil]
      omega

theorem load_private_key_ok {file : KeyFile} {len : Nat} {key : List UInt8}
    (h : load_private_key file len = (NGX_OK, key)) : file = some key ∧ key.length = len := by
  unfold load_private_key at h
  split_ifs at h with hmax
  · simp at h
  cases file with
  | none => simp at h
  | some bytes =>
    have h : load_private_key_loop len [] bytes = (NGX_OK, key) := h
    obtain ⟨hkey, hge⟩ := load_private_key_loop_ok h
    have hle := load_private_key_loop_length_le bytes (show ([] : List UInt8).length ≤ len from Nat.zero_le len)
    rw [h] at hle
    dsimp only at hle
    exact ⟨by simpa using hkey.symm, by omega⟩

theorem KeyDecoder.push_length_le {len : Nat} {k k' : KeyDecoder} (hk : k.stored.length ≤ len)
    (h : k.push len = some k') : k'.stored.length ≤ len := by
  unfold KeyDecoder.push at h
  dsimp only at h
  split_ifs at h with hfull hroom
  · obtain rfl := Option.some.inj h
    simp only [List.length_append, List.length_cons, List.length_nil]
    omega
  · obtain rfl := Option.some.inj h
    exact hk

theorem KeyDecoder.finish_length {len : Nat} {k : KeyDecoder} (hk : k.stored.length ≤ len) :
    (k.finish len).2.length ≤ len ∧ ((k.finish len).1 = NGX_OK → len ≤ (k.finish len).2.length) := by
  unfold KeyDecoder.finish
  dsimp only
  split_ifs
  all_goals
    simp only [List.length_append, List.length_cons, List.length_nil, NGX_OK, NGX_ERROR] at *
    omega

theorem load_public_key_loop_length {len : Nat} {k : KeyDecoder} (rest : List UInt8)
    (hk : k.stored.length ≤ len) :
    (load_public_key_loop len k rest).2.length ≤ len ∧
      ((load_public_key_loop len k rest).1 = NGX_OK →
        len ≤ (load_public_key_loop len k rest).2.length) := by
  induction rest generalizing k with
  | nil => exact KeyDecoder.finish_length hk
  | cons ch rest ih =>
    simp only [load_public_key_loop]
    cases key_char ch with
    | pad => exact KeyDecoder.finish_length hk
    | invalid => exact ⟨hk, by simp⟩
    | digit value =>
      dsimp only
      cases hpush : KeyDecoder.push len { k with digit := value } with
      | none => exact ⟨hk, by simp⟩
      | some next =>
        apply ih
        exact KeyDecoder.push_length_le (k := { k with digit := value }) hk hpush
    | blank =>
      dsimp only
      cases hpush : k.push len with
      | none => exact ⟨hk, by simp⟩
      | some next =>
        apply ih
        exact KeyDecoder.push_length_le hk hpush

theorem load_public_key_ok {file : KeyFile} {len : Nat} {key : List UInt8}
    (h : load_public_key file len = (NGX_OK, key)) : key.length = len := by
  unfold load_public_key at h
  split_ifs at h with hmax
  · simp at h
  cases file with
  | none => simp at h
  | some bytes =>
    have hlen := load_public_key_loop_length (k := ⟨0, 0, 0, []⟩) bytes (Nat.zero_le len)
    simp only at h
    rw [h] at hlen
    have hge := hlen.2 rfl
    have hle := hlen.1
    dsimp only at hge hle
    omega

/-- Two ranges of memory that share no byte. -/
def Apart (addr len addr' len' : Nat) : Prop := addr + len ≤ addr' ∨ addr' + len' ≤ addr

instance (addr len addr' len' : Nat) : Decidable (Apart addr len addr' len') :=
  inferInstanceAs (Decidable (_ ∨ _))

/-- The blocks of a pool share no byte. -/
structure KeyAlloc.Separate (alloc : KeyAlloc) : Prop where
  private_key : Apart alloc.private_key.elts 16 alloc.private_key.data 32
  public_key : Apart alloc.public_key.elts 16 alloc.public_key.data 32
  records : Apart alloc.private_key.elts 16 alloc.public_key.elts 16
  private_public : Apart alloc.private_key.elts 16 alloc.public_key.data 32
  public_private : Apart alloc.public_key.elts 16 alloc.private_key.data 32
  keys : Apart alloc.private_key.data 32 alloc.public_key.data 32

@[simp]
theorem length_record (block : KeyBlock) : block.record.length = 16 := by
  simp [KeyBlock.record, le64]

theorem read_write_of_apart (mem : Memory) {addr len addr' : Nat} {bytes : List UInt8}
    (h : Apart addr len addr' bytes.length) :
    (mem.write addr' bytes).read addr len = mem.read addr len :=
  mem.read_write_of_disjoint addr' addr len bytes h

/-- A key array that was loaded: its record and its key are in place, and what is
apart from both is as it was. -/
theorem load_key_array_some {load : Nat → Int × List UInt8} {block : KeyBlock} {mem mem' : Memory}
    {keys : KeyArray} (hown : Apart block.elts 16 block.data 32)
    (hlen : ∀ key, load 32 = (NGX_OK, key) → key.length = 32)
    (h : load_key_array load block mem = ok (some keys, mem')) :
    ∃ key, load 32 = (NGX_OK, key) ∧ keys.elts = block.elts ∧
      mem'.read block.elts 16 = block.record ∧ mem'.read block.data 32 = key ∧
      ∀ addr len, Apart addr len block.elts 16 → Apart addr len block.data 32 →
        mem'.read addr len = mem.read addr len := by
  unfold load_key_array at h
  dsimp only at h
  split_ifs at h with helts hdata hrc
  · simp at h
  have hrc : (load 32).1 = NGX_OK := not_not.mp hrc
  have hkey := hlen (load 32).2 (Prod.ext hrc rfl)
  obtain ⟨hkeys, hmem⟩ := Prod.ext_iff.mp (ok.inj h)
  dsimp only at hkeys hmem
  obtain rfl := Option.some.inj hkeys
  refine ⟨(load 32).2, Prod.ext hrc rfl, rfl, ?_, ?_, ?_⟩
  · have hrecord := mem.read_write_self block.elts block.record
    rw [length_record] at hrecord
    rw [← hmem, read_write_of_apart _ (by simpa only [hkey] using hown), hrecord]
  · have hstored := (mem.write block.elts block.record).read_write_self block.data (load 32).2
    rwa [hkey, hmem] at hstored
  · intro addr len hrec hdat
    rw [← hmem, read_write_of_apart _ (by simpa only [hkey] using hdat),
      read_write_of_apart _ (by simpa only [length_record] using hrec)]

end ngx_noise_protocol
