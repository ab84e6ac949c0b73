import NoiseSocket.Handler.Data.Stream

open Exec Exec.Result

namespace Net

/-- The peer has closed the stream, and before that, without a pause or a failure, there are fewer than
`n` bytes. -/
def Incoming.EndsWithin (s : Incoming) (n : Nat) : Prop :=
  s.closed = true ∧ (∀ item ∈ s.items, item ≠ .again ∧ item ≠ .error) ∧ s.bytes.length < n

end Net

namespace ngx_nsoc

variable {S : Type}

/-- What a length reader takes from a stream, behind the bytes it has saved. -/
inductive LenTaken (saved : List UInt8) (rx : Net.Incoming) : LenAnswer × Net.Incoming → Prop
  | got (b0 b1 : UInt8) (bytes : List UInt8) {rest : Net.Incoming}
    (hbytes : rx.bytes = bytes ++ rest.bytes) (hboth : saved ++ bytes = [b0, b1]) :
    LenTaken saved rx (.got (be16 b0 b1), rest)
  | again (field : SizeField) (bytes : List UInt8) {rest : Net.Incoming}
    (hbytes : rx.bytes = bytes ++ rest.bytes) (hsaved : saved ++ bytes = field.held)
    (hfield : ∀ size, field ≠ .known size) (hend : ¬rx.EndsWithin (2 - saved.length)) :
    LenTaken saved rx (.again field, rest)
  | error (field : SizeField) (bytes : List UInt8) {rest : Net.Incoming}
    (hbytes : rx.bytes = bytes ++ rest.bytes) (hshort : (saved ++ bytes).length < 2)
    (hend : ¬rx.EndsWithin (2 - saved.length)) : LenTaken saved rx (.error field, rest)
  | closed (field : SizeField) (bytes : List UInt8) {rest : Net.Incoming}
    (hbytes : rx.bytes = bytes ++ rest.bytes) (hshort : (saved ++ bytes).length < 2)
    (hend : rx.EndsWithin (2 - saved.length)) : LenTaken saved rx (.closed field, rest)

theorem LenTaken.exists_bytes {saved : List UInt8} {rx : Net.Incoming}
    {taken : LenAnswer × Net.Incoming} (h : LenTaken saved rx taken) :
    ∃ bytes, rx.bytes = bytes ++ taken.2.bytes := by
  cases h with
  | got b0 b1 bytes hbytes | again field bytes hbytes | error field bytes hbytes
  | closed field bytes hbytes => exact ⟨bytes, hbytes⟩

theorem lenTaken_second_byte (b0 : UInt8) (field : SizeField) (rx : Net.Incoming) :
    LenTaken [b0] rx (second_byte b0 field rx) := by
  obtain ⟨_ | ⟨⟨b1, bs⟩ | _ | _, rest⟩, closed⟩ := rx
  · cases closed with
    | false => exact .again (.first b0) [] rfl rfl nofun (by simp [Net.Incoming.EndsWithin])
    | true =>
      exact .closed field [] rfl (by simp) (by simp [Net.Incoming.EndsWithin, Net.Incoming.bytes])
  · exact .got b0 b1 [b1] (by rw [Net.Incoming.bytes_unread]; rfl) rfl
  · exact .again (.first b0) [] rfl rfl nofun (by simp [Net.Incoming.EndsWithin])
  · exact .error field [] rfl (by simp) (by simp [Net.Incoming.EndsWithin])

theorem endsWithin_data (b0 : UInt8) (rest : List Net.Item) (closed : Bool) (n : Nat) :
    Net.Incoming.EndsWithin ⟨.data b0 [] :: rest, closed⟩ (n + 1) ↔
      Net.Incoming.EndsWithin ⟨rest, closed⟩ n := by
  simp [Net.Incoming.EndsWithin, Net.Incoming.bytes]

/-- The first byte of a length on its own is the byte saved for the second one. -/
theorem LenTaken.of_second {b0 : UInt8} {rest : List Net.Item} {closed : Bool}
    {taken : LenAnswer × Net.Incoming} (h : LenTaken [b0] ⟨rest, closed⟩ taken) :
    LenTaken [] ⟨.data b0 [] :: rest, closed⟩ taken := by
  have hfirst {bytes : List UInt8} {rx : Net.Incoming}
      (hbytes : Net.Incoming.bytes ⟨rest, closed⟩ = bytes ++ rx.bytes) :
      Net.Incoming.bytes ⟨.data b0 [] :: rest, closed⟩ = (b0 :: bytes) ++ rx.bytes :=
    congrArg (b0 :: ·) hbytes
  cases h with
  | got c0 c1 bytes hbytes hboth => exact .got c0 c1 (b0 :: bytes) (hfirst hbytes) hboth
  | again field bytes hbytes hsaved hfield hend =>
    exact .again field (b0 :: bytes) (hfirst hbytes) hsaved hfield
      fun h => hend ((endsWithin_data b0 rest closed 1).mp h)
  | error field bytes hbytes hshort hend =>
    exact .error field (b0 :: bytes) (hfirst hbytes) hshort
      fun h => hend ((endsWithin_data b0 rest closed 1).mp h)
  | closed field bytes hbytes hshort hend =>
    exact .closed field (b0 :: bytes) (hfirst hbytes) hshort
      ((endsWithin_data b0 rest closed 1).mpr hend)

theorem lenTaken_both_bytes (rx : Net.Incoming) : LenTaken [] rx (both_bytes rx) := by
  obtain ⟨_ | ⟨⟨b0, _ | ⟨b1, bs⟩⟩ | _ | _, rest⟩, closed⟩ := rx
  · cases closed with
    | false => exact .again .unset [] rfl rfl nofun (by simp [Net.Incoming.EndsWithin])
    | true =>
      exact .closed .unset [] rfl (by simp) (by simp [Net.Incoming.EndsWithin, Net.Incoming.bytes])
  · exact (lenTaken_second_byte b0 .unset ⟨rest, closed⟩).of_second
  · exact .got b0 b1 [b0, b1] (by rw [Net.Incoming.bytes_unread]; rfl) rfl
  · exact .again .unset [] rfl rfl nofun (by simp [Net.Incoming.EndsWithin])
  · exact .error .unset [] rfl (by simp) (by simp [Net.Incoming.EndsWithin])

theorem lenTaken_take_len (field : SizeField) (rx : Net.Incoming) :
    LenTaken field.held rx (take_len field rx) := by
  cases field with
  | first b0 => exact lenTaken_second_byte b0 _ rx
  | unset | known => exact lenTaken_both_bytes rx

/-- Between two calls of a length reader: the bytes that it has taken of the length it is reading. A
call that was suspended is resumed later, and only the size field is sure to be as it was. -/
inductive Gathered (f : LenField) : List UInt8 → Endpoint S → Prop
  | start {w : Endpoint S} (hstart : ∀ b0, w.nc.size f ≠ .first b0) : Gathered f [] w
  | resumed {earlier bytes : List UInt8} {u v w : Endpoint S} {fuel : Nat}
    (hrun : Gathered f earlier u) (hcall : u.read_len f fuel = ok (NGX_AGAIN, v))
    (hbytes : u.env.rx.bytes = bytes ++ v.env.rx.bytes) (hsize : w.nc.size f = v.nc.size f) :
    Gathered f (earlier ++ bytes) w

theorem Gathered.of_unset {f : LenField} {w : Endpoint S} (h : w.nc.size f = .unset) :
    Gathered f [] w := by
  apply Gathered.start
  intro b0
  rw [h]
  nofun

/-- What a call of a length reader is to promise, with `taken` the bytes of the length taken so far:
`NGX_OK` for the whole length, which is stored then, and no length to be taken for it before. -/
structure LenSound (f : LenField) (taken : List UInt8) (rc : Int) (w : Endpoint S) : Prop where
  ok : rc = NGX_OK ↔ taken.length = NGX_NSOC_LEN_FIELD_SIZE
  size : ∀ b0 b1, taken = [b0, b1] → w.nc.size f = .known (be16 b0 b1)
  short : taken.length ≠ NGX_NSOC_LEN_FIELD_SIZE →
    (∀ size, w.nc.size f ≠ .known size) ∨ rc = NGX_ERROR ∧ w.nc.last = NGX_ERROR

/-- The size field holds what has been taken. -/
theorem Gathered.held {f : LenField} {earlier : List UInt8} {w : Endpoint S}
    (h : Gathered f earlier w) : (w.nc.size f).held = earlier := by
  induction h with
  | @start w hstart =>
    cases hsize : w.nc.size f with
    | first b0 => exact absurd hsize (hstart b0)
    | unset | known => rfl
  | @resumed earlier bytes u v w fuel hrun hcall hbytes hsize ih =>
    obtain ⟨hcode, hresult⟩ := Endpoint.read_len_cases hcall
    have htaken := lenTaken_take_len (u.nc.size f) u.env.rx
    rw [hsize, hresult.size, ← ih]
    rw [hresult.rx] at hbytes
    generalize take_len (u.nc.size f) u.env.rx = taken at *
    cases htaken with
    | again field bytes' hbytes' hsaved =>
      obtain rfl := List.append_cancel_right (hbytes.symm.trans hbytes')
      exact hsaved.symm
    | got | error | closed => simp [LenAnswer.code] at hcode

/-- A call of a length reader, behind what has been taken of the length before. -/
theorem LenTaken.sound_iff {f : LenField} {w w' : Endpoint S} {saved bytes : List UInt8}
    {taken : LenAnswer × Net.Incoming} (h : LenTaken saved w.env.rx taken)
    (hresult : Endpoint.LenResult f w w' taken) (hbytes : w.env.rx.bytes = bytes ++ taken.2.bytes) :
    LenSound f (saved ++ bytes) taken.1.code w' ↔ ¬w.env.rx.EndsWithin (2 - saved.length) := by
  have hsize := hresult.size
  have hlast := hresult.last
  cases h with
  | got b0 b1 bytes' hbytes' hboth =>
    obtain rfl := List.append_cancel_right (hbytes.symm.trans hbytes')
    have hlen : (saved ++ bytes).length = 2 := by rw [hboth]; rfl
    apply iff_of_true
    · refine ⟨iff_of_true rfl hlen, fun c0 c1 hc => ?_, fun hshort => absurd hlen hshort⟩
      rw [hboth] at hc
      cases hc
      exact hsize
    · intro ⟨_, _, hend⟩
      rw [hbytes'] at hend
      simp only [List.length_append] at hend hlen
      omega
  | again field bytes' hbytes' hsaved hfield hend =>
    obtain rfl := List.append_cancel_right (hbytes.symm.trans hbytes')
    have hlen : (saved ++ bytes).length < 2 := by
      rw [hsaved]
      cases field with
      | unset | first | known => simp [SizeField.held]
    apply iff_of_true
    · refine ⟨iff_of_false (by simp [LenAnswer.code]) (Nat.ne_of_lt hlen), fun c0 c1 hc => ?_,
        fun _ => .inl ?_⟩
      · rw [hc] at hlen
        exact absurd hlen (Nat.lt_irrefl 2)
      · rw [hsize]
        exact hfield
    · exact hend
  | error field bytes' hbytes' hlen hend =>
    obtain rfl := List.append_cancel_right (hbytes.symm.trans hbytes')
    apply iff_of_true
    · refine ⟨iff_of_false (by simp [LenAnswer.code]) (Nat.ne_of_lt hlen), fun c0 c1 hc => ?_,
        fun _ => .inr ⟨rfl, hlast⟩⟩
      rw [hc] at hlen
      exact absurd hlen (Nat.lt_irrefl 2)
    · exact hend
  | closed field bytes' hbytes' hlen hend =>
    obtain rfl := List.append_cancel_right (hbytes.symm.trans hbytes')
    apply iff_of_false
    · intro hsound
      exact absurd (hsound.ok.mp rfl) (Nat.ne_of_lt hlen)
    · exact not_not.mpr hend

/-- The length readers return `NGX_OK` for a whole length only, in every call of every sequence of
calls, but for those that meet the end of the stream before the length is complete. -/
theorem read_len_sound_iff (f : LenField) {earlier : List UInt8} {w : Endpoint S}
    (hrun : Gathered f earlier w) {fuel : Nat} (hfuel : NGX_NSOC_LEN_FIELD_SIZE ≤ fuel) :
    ∃ rc w' bytes, w.read_len f fuel = ok (rc, w') ∧ w.env.rx.bytes = bytes ++ w'.env.rx.bytes ∧
      (LenSound f (earlier ++ bytes) rc w' ↔
        ¬w.env.rx.EndsWithin (NGX_NSOC_LEN_FIELD_SIZE - earlier.length)) := by
  obtain ⟨w', hcall, hresult⟩ := w.read_len_spec f hfuel
  have htaken := lenTaken_take_len (w.nc.size f) w.env.rx
  rw [hrun.held] at htaken
  obtain ⟨bytes, hbytes⟩ := htaken.exists_bytes
  refine ⟨_, w', bytes, hcall, by rw [hresult.rx]; exact hbytes, ?_⟩
  exact htaken.sound_iff hresult hbytes

/-- The length 300 in two calls. -/
theorem read_len_sound_of_two_calls : ∃ w w' : Endpoint Pattern, Gathered .noise_msg [1] w ∧
    w.read_noise_msg_len 2 = ok (NGX_OK, w') ∧ LenSound .noise_msg [1, 44] NGX_OK w' := by
  obtain ⟨w, hfirst, hsecond⟩ : ∃ w, (Endpoint.pattern_server [.data 1 [], .again, .data 44 []]
      false).read_len .noise_msg 2 = ok (NGX_AGAIN, w) ∧ w.env.rx = ⟨[.data 44 []], false⟩ ∧
      ∃ w', w.read_len .noise_msg 2 = ok (NGX_OK, w') ∧ w'.env.rx = ⟨[], false⟩ :=
    ⟨_, rfl, rfl, _, rfl, rfl⟩
  obtain ⟨hrx, w', hcall, hrx'⟩ := hsecond
  have hrun : Gathered .noise_msg ([] ++ [1]) w :=
    .resumed (.of_unset rfl) hfirst (by rw [hrx]; rfl) rfl
  obtain ⟨rc, v, bytes, hcall', hbytes, hiff⟩ :=
    read_len_sound_iff .noise_msg hrun (Nat.le_refl NGX_NSOC_LEN_FIELD_SIZE)
  obtain ⟨rfl, rfl⟩ := Prod.mk.inj (ok.inj (hcall.symm.trans hcall'))
  rw [hrx, hrx'] at hbytes
  obtain rfl : [44] = bytes := hbytes.trans (List.append_nil bytes)
  refine ⟨w, w', hrun, hcall, hiff.mpr ?_⟩
  intro hend
  rw [hrx] at hend
  exact absurd hend.1 (by decide)

/-- The peer closes behind the first byte of a length, which has been saved: it is the length. -/
theorem not_read_len_sound_of_early_close : ∃ w w' : Endpoint Pattern, Gathered .noise_msg [5] w ∧
    w.read_noise_msg_len 2 = ok (NGX_OK, w') ∧ w.env.rx.bytes = [] ++ w'.env.rx.bytes ∧
    w'.nc.noise_msg = .known 5 ∧ ¬LenSound .noise_msg ([5] ++ []) NGX_OK w' := by
  obtain ⟨w, hfirst, hsecond⟩ : ∃ w, (Endpoint.pattern_server [.data 5 [], .again] true).read_len
      .noise_msg 2 = ok (NGX_AGAIN, w) ∧ w.env.rx = ⟨[], true⟩ ∧ ∃ w', w.read_len .noise_msg 2 =
        ok (NGX_OK, w') ∧ w'.env.rx = ⟨[], true⟩ ∧ w'.nc.noise_msg = .known 5 :=
    ⟨_, rfl, rfl, _, rfl, rfl, rfl⟩
  obtain ⟨hrx, w', hcall, hrx', hknown⟩ := hsecond
  have hrun : Gathered .noise_msg ([] ++ [5]) w :=
    .resumed (.of_unset rfl) hfirst (by rw [hrx]; rfl) rfl
  refine ⟨w, w', hrun, hcall, by rw [hrx, hrx']; rfl, hknown, fun hsound => ?_⟩
  exact absurd (hsound.ok.mp rfl) (by decide)

end ngx_nsoc
