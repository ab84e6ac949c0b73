import NoiseSocket.Handler.Data.Confined
import NoiseSocket.Handler.Data.RoundTrip

open Exec Exec.Result

namespace ngx_nsoc

variable {S T R : Type}

/-- noise-c as two ciphers of a connection: sealing moves the sending cipher and opening the receiving
one. What a sender seals while it is in `Sync` with a receiver, the receiver gets back, and the two stay
in `Sync`. -/
structure Ciphers (N : NoiseC S) (sending : S → T) (receiving : S → R) (Sync : T → R → Prop) : Prop where
  opens : ∀ sender receiver plain, Sync (sending sender) (receiving receiver) →
    plain.length + 16 < 65536 → ∃ sealed sender' receiver',
      N.cipherstate_encrypt plain sender = ((NOISE_ERROR_NONE, sealed), sender') ∧
      sealed.length = plain.length + 16 ∧
      N.cipherstate_decrypt sealed receiver = ((NOISE_ERROR_NONE, plain), receiver') ∧
      Sync (sending sender') (receiving receiver')
  encrypt : ∀ plain s, receiving (N.cipherstate_encrypt plain s).2 = receiving s
  decrypt : ∀ sealed s, sending (N.cipherstate_decrypt sealed s).2 = sending s
  decrypt_congr : ∀ sealed s s', receiving s = receiving s' →
    (N.cipherstate_decrypt sealed s).1 = (N.cipherstate_decrypt sealed s').1 ∧
      receiving (N.cipherstate_decrypt sealed s).2 = receiving (N.cipherstate_decrypt sealed s').2

/-- Frames under way with the payloads in them: a receiver in the state `s` opens them one after the
other, and is then in `Sync` with the sending cipher `t`. -/
inductive Flight (N : NoiseC S) (receiving : S → R) (Sync : T → R → Prop) (t : T) :
    S → List (List UInt8) → List (List UInt8) → Prop where
  | nil {s : S} (hsync : Sync t (receiving s)) : Flight N receiving Sync t s [] []
  | cons {s s' : S} {sealed payload : List UInt8} {frames payloads : List (List UInt8)}
      (hlen : sealed.length = payload.length + 18) (hmax : payload.length ≤ NOISE_PROTOCOL_PAYLOAD_SIZE)
      (hopen : N.cipherstate_decrypt sealed s =
        ((NOISE_ERROR_NONE, Endpoint.lenBytes payload.length ++ payload), s'))
      (hrest : Flight N receiving Sync t s' frames payloads) :
      Flight N receiving Sync t s (sealed :: frames) (payload :: payloads)

section

variable {N : NoiseC S} {sending : S → T} {receiving : S → R} {Sync : T → R → Prop} {t : T} {s s' : S}
  {frames payloads : List (List UInt8)} {payload : List UInt8}

/-- What the receiver seals itself does not matter to what it opens. -/
theorem Flight.congr (hN : Ciphers N sending receiving Sync)
    (h : Flight N receiving Sync t s frames payloads) (hsame : receiving s' = receiving s) :
    Flight N receiving Sync t s' frames payloads := by
  induction h generalizing s' with
  | nil hsync => exact .nil (hsame ▸ hsync)
  | @cons s next sealed payload frames payloads hlen hmax hopen _ ih =>
    obtain ⟨hcall, hnext⟩ := hN.decrypt_congr sealed s' s hsame
    rw [hopen] at hcall hnext
    have hopen' : N.cipherstate_decrypt sealed s' =
        ((NOISE_ERROR_NONE, Endpoint.lenBytes payload.length ++ payload),
          (N.cipherstate_decrypt sealed s').2) := Prod.ext hcall rfl
    exact .cons hlen hmax hopen' (ih hnext)

/-- Each frame has room for its payload, two lengths and the tag, less the length in front of it. -/
theorem Flight.lengths (h : Flight N receiving Sync t s frames payloads) :
    List.Forall₂ (fun sealed payload => sealed.length = payload.length + 18) frames payloads := by
  induction h with
  | nil => exact .nil
  | cons hlen _ _ _ ih => exact .cons hlen ih

/-- The sender seals one more payload. -/
theorem Flight.send (hN : Ciphers N sending receiving Sync) {sender : S}
    (h : Flight N receiving Sync (sending sender) s frames payloads)
    (hmax : payload.length ≤ NOISE_PROTOCOL_PAYLOAD_SIZE) :
    ∃ sealed sender', N.cipherstate_encrypt (Endpoint.lenBytes payload.length ++ payload) sender =
        ((NOISE_ERROR_NONE, sealed), sender') ∧ sealed.length = payload.length + 18 ∧
      Flight N receiving Sync (sending sender') s (frames ++ [sealed]) (payloads ++ [payload]) := by
  have hplain : (Endpoint.lenBytes payload.length ++ payload).length = payload.length + 2 := by
    simp [Endpoint.lenBytes]
  have hfits : payload.length ≤ 65517 := hmax
  generalize ht : sending sender = t at h
  induction h with
  | @nil s hsync =>
    subst ht
    obtain ⟨sealed, sender', s', hseal, hlen, hopen, hsync'⟩ :=
      hN.opens sender s (Endpoint.lenBytes payload.length ++ payload) hsync (by omega)
    have hframe : sealed.length = payload.length + 18 := by omega
    exact ⟨sealed, sender', hseal, hframe, .cons hframe hmax hopen (.nil hsync')⟩
  | cons hlen hmax' hopen _ ih =>
    obtain ⟨sealed, sender', hseal, hframe, hflight⟩ := ih
    exact ⟨sealed, sender', hseal, hframe, .cons hlen hmax' hopen hflight⟩

end

namespace Endpoint

/-- What receiving leaves of the sending half of a connection. -/
structure SendHalf (w v : Endpoint S) : Prop where
  sends : v.env.sends = w.env.sends
  tx : v.env.tx = w.env.tx
  to_send : v.nc.to_send = w.nc.to_send
  send_buf : v.nc.send_buf = w.nc.send_buf
  buffer_size : v.nc.buffer_size = w.nc.buffer_size
  handshaked : v.nc.handshaked = w.nc.handshaked

theorem SendHalf.refl (w : Endpoint S) : SendHalf w w := ⟨rfl, rfl, rfl, rfl, rfl, rfl⟩

theorem SendHalf.trans {u v w : Endpoint S} (h : SendHalf u v) (h' : SendHalf v w) : SendHalf u w :=
  ⟨h'.sends.trans h.sends, h'.tx.trans h.tx, h'.to_send.trans h.to_send, h'.send_buf.trans h.send_buf,
    h'.buffer_size.trans h.buffer_size, h'.handshaked.trans h.handshaked⟩

theorem send_half_setRecvBuf (w : Endpoint S) (recv_buf : Option RawBuf) :
    SendHalf w (w.setRecvBuf recv_buf) :=
  ⟨rfl, rfl, rfl, rfl, rfl, rfl⟩

theorem LenFrame.send_half {f : LenField} {w v : Endpoint S} (h : LenFrame f w v) : SendHalf w v := by
  have hsettled := h.reads.settled
  refine ⟨h.reads.sends, h.reads.tx, ?_, ?_, ?_, ?_⟩
  · simpa [NoiseConnection.settled] using congrArg NoiseConnection.to_send hsettled
  · simpa [NoiseConnection.settled] using congrArg NoiseConnection.send_buf hsettled
  · simpa [NoiseConnection.settled] using congrArg NoiseConnection.buffer_size hsettled
  · simpa [NoiseConnection.settled] using congrArg NoiseConnection.handshaked hsettled

section

variable {N : NoiseC S} {fuel buf size : Nat} {w : Endpoint S}

theorem send_half_recv_frame (start len : Nat) : SendHalf w (w.recv_frame N start len size).2 := by
  unfold recv_frame
  dsimp only
  split_ifs <;> exact ⟨rfl, rfl, rfl, rfl, rfl, rfl⟩

theorem send_half_recv_body {flow : ControlFlow (Endpoint S) (Int × Endpoint S)}
    (h : recv_body N size w = ok flow) :
    flow.Holds (fun v => SendHalf w v) fun r => SendHalf w r.2 := by
  unfold recv_body at h
  split at h
  · cases h
  · have hread : ∀ part addr n, SendHalf w (w.recv_at part addr n).2 := fun part addr n =>
      ⟨rfl, rfl, rfl, rfl, rfl, rfl⟩
    dsimp only at h
    split_ifs at h
    · cases h
      exact ((hread _ _ _).trans (send_half_setRecvBuf _ _)).trans (send_half_recv_frame _ _)
    · cases h
      exact (hread _ _ _).trans ⟨rfl, rfl, rfl, rfl, rfl, rfl⟩
    · cases h
      exact (hread _ _ _).trans ⟨rfl, rfl, rfl, rfl, rfl, rfl⟩
    · cases h
      exact (hread _ _ _).trans ⟨rfl, rfl, rfl, rfl, rfl, rfl⟩

theorem send_half_recv_loop {r : Int × Endpoint S} (h : loop (recv_body N size) fuel w = ok r) :
    SendHalf w r.2 := by
  refine loop_holds (fun v => SendHalf w v) (fun r => SendHalf w r.2) ?_ (.refl w) h
  intro v flow hv hbody
  have hpass := send_half_recv_body hbody
  cases flow with
  | cont next => exact hv.trans hpass
  | done r => exact hv.trans hpass

/-- A call of `ngx_nsoc_recv` leaves the sending half alone. -/
theorem send_half_recv {r : Int × Endpoint S} (h : w.recv N fuel buf size = ok r) : SendHalf w r.2 := by
  by_cases hid : w.nc.connection ≠ w.c.id
  · rw [recv, if_pos hid] at h
    cases h
    exact .refl w
  by_cases hlast : w.nc.last = NGX_ERROR
  · rw [recv, if_neg hid, if_pos hlast] at h
    cases h
    exact ⟨rfl, rfl, rfl, rfl, rfl, rfl⟩
  by_cases hincomplete : w.nc.noise_msg.incomplete
  · rw [recv_of_incomplete (not_not.mp hid) hlast hincomplete, bind_eq_ok_iff] at h
    obtain ⟨⟨n, v⟩, hlen, hrest⟩ := h
    have hv : SendHalf w v := (read_len_cases hlen).2.frame.send_half
    dsimp only at hrest
    split_ifs at hrest
    · cases hrest
      exact hv
    · split at hrest
      · cases hrest
        exact hv
      · cases hrest
        exact hv
    · split at hrest
      · cases hrest
        exact hv
      · have halloc : SendHalf v v.ngx_alloc.2 := ⟨rfl, rfl, rfl, rfl, rfl, rfl⟩
        exact ((hv.trans halloc).trans (send_half_setRecvBuf _ _)).trans (send_half_recv_loop hrest)
    · split at hrest
      · cases hrest
        exact hv
      · cases hrest
        exact hv.trans ⟨rfl, rfl, rfl, rfl, rfl, rfl⟩
  · rw [recv, if_neg hid, if_neg hlast] at h
    cases hsize : w.nc.noise_msg with
    | known len =>
      rw [hsize] at h
      exact send_half_recv_loop h
    | unset | first b0 => simp [hsize, SizeField.incomplete] at hincomplete

end

/-- What sending leaves of what a connection is to receive. -/
structure RecvHalf (w v : Endpoint S) : Prop where
  rx : v.env.rx = w.env.rx
  allocs : w.env.allocs = [] → v.env.allocs = []

theorem RecvHalf.trans {u v w : Endpoint S} (h : RecvHalf u v) (h' : RecvHalf v w) : RecvHalf u w :=
  ⟨h'.rx.trans h.rx, fun hquiet => h'.allocs (h.allocs hquiet)⟩

theorem recv_half_ngx_send (w : Endpoint S) (bytes : List UInt8) : RecvHalf w (w.ngx_send bytes).2 := by
  unfold ngx_send
  rcases w.env.sends with _ | ⟨_ | _ | _, sends⟩ <;> exact ⟨rfl, id⟩

theorem recv_half_write_loop {size fuel : Nat} {b : RawBuf} {w : Endpoint S} {r : Int × Endpoint S}
    (h : loop (write_body size) fuel (b, w) = ok r) : RecvHalf w r.2 := by
  refine loop_invariant (fun s => RecvHalf w s.2) (fun r => RecvHalf w r.2) ?_ ?_ ⟨rfl, id⟩ h
  · rintro ⟨b, v⟩ ⟨b', v'⟩ hv hbody
    simp only [write_body] at hbody
    split_ifs at hbody <;> cases hbody
    exact hv.trans (recv_half_ngx_send v _)
  · rintro ⟨b, v⟩ result hv hbody
    simp only [write_body] at hbody
    split_ifs at hbody <;> cases hbody
    · exact hv.trans ((recv_half_ngx_send v _).trans ⟨rfl, id⟩)
    · exact hv.trans (recv_half_ngx_send v _)

/-- A call of `ngx_nsoc_write` does not read. -/
theorem recv_half_write {N : NoiseC S} {fuel data size : Nat} {w : Endpoint S} {r : Int × Endpoint S}
    (h : w.write N fuel data size = ok r) : RecvHalf w r.2 := by
  unfold write at h
  split_ifs at h
  · cases h
    exact ⟨rfl, id⟩
  · cases h
    exact ⟨rfl, id⟩
  · cases h
    exact ⟨rfl, id⟩
  · have halloc : RecvHalf w w.ngx_alloc.2 := by
      refine ⟨rfl, ?_⟩
      intro hquiet
      simp [ngx_alloc, hquiet, nextAnswer]
    have hframe : RecvHalf w (w.write_frame N data (size - 2 * NGX_NSOC_LEN_FIELD_SIZE)).2 := by
      unfold write_frame
      dsimp only
      split_ifs
      · exact halloc.trans ⟨rfl, id⟩
      · exact halloc.trans ⟨rfl, id⟩
      · exact halloc
    split at h
    · rename_i v hcall
      rw [hcall] at hframe
      cases h
      exact hframe
    · rename_i b v hcall
      rw [hcall] at hframe
      exact hframe.trans (recv_half_write_loop h)
  · split at h
    · cases h
    · exact recv_half_write_loop h

/-- Inside a frame whose end has not arrived a call takes what is there, and pauses. -/
theorem recv_loop_part {N : NoiseC S} {start len size fuel : Nat} {got : List UInt8} {w : Endpoint S}
    (hfuel : len - got.length < fuel) (hw : w.Receiving) (hinside : Inside start len got w)
    (hpart : (got ++ w.env.rx.bytes).length < len) :
    ∃ v got', loop (recv_body N size) fuel w = ok (NGX_AGAIN, v) ∧ RecvFrame w v ∧ v.Receiving ∧
      Inside start len got' v ∧ got' ++ v.env.rx.bytes = got ++ w.env.rx.bytes := by
  induction fuel generalizing got w with
  | zero => omega
  | succ fuel ih =>
    have hshort := hinside.short
    obtain ⟨chunk, rx, hrecv, hlive, hrx, -, hpos, -⟩ | ⟨rx, hrecv, hlive, hrx, -⟩ :=
      hw.live.recv (show 0 < len - got.length by omega)
    · obtain ⟨v, hframe, hv, hlast, hmem, hsize, hbuf, -, hbody⟩ :=
        recv_body_data N hinside hrecv hpos
      have hv' : v.Receiving :=
        hframe.receiving hw (by rw [hlast]; exact hw.last) (by rw [hv]; exact hlive)
      have hleft : (got ++ chunk) ++ v.env.rx.bytes = got ++ w.env.rx.bytes := by
        rw [hrx, hv, List.append_assoc]
      have hless : (got ++ chunk).length < len := by
        rw [← hleft, List.length_append] at hpart
        omega
      have hlen : (got ++ chunk).length = got.length + chunk.length := List.length_append
      have hbody := hbody size
      rw [if_neg (by omega)] at hbody
      rw [loop_of_cont hbody]
      obtain ⟨u, got', hloop, hframe', hu, hin, hrest⟩ :=
        ih (by omega) hv' ⟨hsize, hbuf, hmem, hless, hinside.fits⟩ (hleft ▸ hpart)
      exact ⟨u, got', hloop, hframe.trans hframe', hu, hin, hrest.trans hleft⟩
    · obtain ⟨v, hframe, hv, hlast, hin, -, hbody⟩ := recv_body_again N hinside hrecv
      have hv' : v.Receiving := hframe.receiving hw (by simp [hlast]) (by rw [hv]; exact hlive)
      exact ⟨v, got, loop_of_done (Nat.succ_pos _) (hbody size), hframe, hv', hin, by rw [hv, hrx]⟩

/-- How a call ends with `left` before it: it gets to the end of the first frame, or it pauses and
loses nothing. -/
inductive LiveEnd (N : NoiseC S) (buf size : Nat) (sealed left : List UInt8) (w : Endpoint S) :
    Result (Int × Endpoint S) → Prop where
  | whole {start : Nat} {v : Endpoint S} (hv : v.Receiving) (hnoise : v.noise = w.noise)
      (hread : v.mem.read (start + 2) sealed.length = sealed)
      (hat : w.payload_at buf = start + 4)
      (hleft : left = lenBytes sealed.length ++ sealed ++ v.env.rx.bytes) :
      LiveEnd N buf size sealed left w (ok (v.recv_frame N (start + 2) sealed.length size))
  | paused {start : Nat} {u : Endpoint S} (hu : u.Receiving) (hnoise : u.noise = w.noise)
      (hleft : Framing start u left) : LiveEnd N buf size sealed left w (ok (NGX_AGAIN, u))

section

variable {N : NoiseC S} {fuel buf start size : Nat} {sealed left rest : List UInt8} {w : Endpoint S}

/-- The part of a call behind the length of the frame. -/
theorem live_end_of_inside {got : List UInt8} {v : Endpoint S} (hfuel : 65536 ≤ fuel) (hv : v.Receiving)
    (hnoise : v.noise = w.noise) (hinside : Inside start sealed.length got v)
    (hbytes : got ++ v.env.rx.bytes <+: sealed ++ rest) (hat : w.payload_at buf = start + 4)
    (hleft : left = lenBytes sealed.length ++ got ++ v.env.rx.bytes) :
    LiveEnd N buf size sealed left w (loop (recv_body N size) fuel v) := by
  have hfits := hinside.fits
  have hmore : sealed.length - got.length < fuel := by omega
  by_cases hwhole : (got ++ v.env.rx.bytes).length < sealed.length
  · obtain ⟨u, got', hloop, hframe, hu, hin, hrest⟩ := recv_loop_part (N := N) hmore hv hinside hwhole
    rw [hloop]
    refine .paused hu (hframe.noise.trans hnoise) (.inside _ got' hin ?_)
    rw [hleft, List.append_assoc, List.append_assoc, hrest]
  · obtain ⟨cut, hcut⟩ := List.prefix_of_prefix_length_le (List.prefix_append sealed rest) hbytes
      (Nat.le_of_not_lt hwhole)
    obtain ⟨u, hloop, hframe, hu, hread, hrest, -⟩ | ⟨u, got', hloop, hframe, hu, hin, hrest, -⟩ :=
      recv_loop_spec (N := N) hmore hv hinside hcut.symm
    · rw [hloop]
      refine .whole hu (hframe.noise.trans hnoise) hread hat ?_
      rw [hleft, List.append_assoc, ← hcut, hrest, List.append_assoc]
    · rw [hloop]
      refine .paused hu (hframe.noise.trans hnoise) (.inside _ got' hin ?_)
      rw [hleft, List.append_assoc, List.append_assoc, hrest, hcut]

/-- A call on a live stream, of which the end of the first frame may not have arrived. -/
theorem recv_live (hfuel : 65536 ≤ fuel) (hbuf : buf ≠ 0) (hw : w.Receiving) (hframing : Framing start w left)
    (hleft : left <+: lenBytes sealed.length ++ sealed ++ rest) (hpos : 0 < sealed.length)
    (hfits : sealed.length < 65536) : LiveEnd N buf size sealed left w (w.recv N fuel buf size) := by
  cases hframing with
  | between hincomplete hbytes =>
    have hat : w.payload_at buf = buf + 4 := payload_at_incomplete hincomplete buf
    obtain ⟨b0, b1, v, hcall, hframe, hv, hknown, hrecv, hfront, -⟩ | ⟨v, hcall, hframe, hv, -⟩ :=
      recv_between (N := N) (show 2 ≤ fuel by omega) hbuf hw hincomplete hbytes size
    · rw [hcall]
      rw [hfront] at hleft
      obtain ⟨rfl, rfl, hrest⟩ : b0 = UInt8.ofNat (sealed.length / 256) ∧
          b1 = UInt8.ofNat sealed.length ∧ v.env.rx.bytes <+: sealed ++ rest := by
        simpa [lenBytes, List.cons_prefix_cons] using hleft
      rw [be16_lenBytes hfits] at hknown hrecv
      have hinside : Inside buf sealed.length [] v := ⟨hknown, hrecv, rfl, hpos, hfits⟩
      exact live_end_of_inside hfuel hv hframe.noise hinside hrest hat hfront
    · rw [hcall]
      exact .paused hv.toReceiving hframe.noise hv.framing
  | inside len got hinside hbytes =>
    obtain ⟨cut, hcut⟩ := hleft
    rw [hbytes, List.append_assoc, List.append_assoc, List.append_assoc] at hcut
    obtain ⟨hlen, hrest⟩ := List.append_inj hcut rfl
    obtain rfl := lenBytes_inj hinside.fits hfits hlen
    rw [← List.append_assoc] at hrest
    have hcall : w.recv N fuel buf size = loop (recv_body N size) fuel w := by
      unfold recv
      rw [if_neg (not_not.mpr hw.connection), if_neg hw.last, hinside.size]
    have hat : w.payload_at buf = start + 4 := by
      simp only [payload_at, hinside.size, hinside.recv_buf]
      rfl
    rw [hcall]
    exact live_end_of_inside hfuel hw rfl hinside ⟨cut, hrest⟩ hat hbytes

/-- A call on a live stream with nothing before it. -/
theorem recv_live_nil (hfuel : 2 ≤ fuel) (hbuf : buf ≠ 0) (hw : w.Receiving) (hframing : Framing start w []) :
    ∃ u, w.recv N fuel buf size = ok (NGX_AGAIN, u) ∧ u.Receiving ∧ u.noise = w.noise ∧
      Framing buf u [] := by
  cases hframing with
  | between hincomplete hbytes =>
    obtain ⟨b0, b1, v, -, -, -, -, -, hfront, -⟩ | ⟨v, hcall, hframe, hv, -⟩ :=
      recv_between (N := N) hfuel hbuf hw hincomplete hbytes size
    · cases hfront
    · exact ⟨v, hcall, hv.toReceiving, hframe.noise, hv.framing⟩
  | inside len got hinside hbytes => simp [lenBytes] at hbytes

end

end Endpoint

end ngx_nsoc
