import NoiseSocket.Handler.Data.Stream

open Exec Exec.Result

namespace ngx_nsoc

variable {S : Type}

namespace Endpoint

/-- A connection that receives frames: nothing has failed, and what it has to fall
back on is there. -/
structure Receiving (w : Endpoint S) : Prop where
  connection : w.nc.connection = w.c.id
  last : w.nc.last ≠ NGX_ERROR
  allocs : w.env.allocs = []
  live : w.env.rx.Live

/-- The receiver of frames is inside a frame of `len` bytes, of which `got` is at
`buf + 2`. -/
structure Inside (buf len : Nat) (got : List UInt8) (w : Endpoint S) : Prop where
  size : w.nc.noise_msg = .known len
  recv_buf : w.nc.recv_buf = some ⟨buf + 2, buf + 2 + got.length, buf + 2, buf + 2 + len⟩
  mem : w.mem.read (buf + 2) got.length = got
  short : got.length < len
  fits : len < 65536

/-- The framing state with which a receiver has `left` before it, from the start of
the frame it is in. -/
inductive Framing (buf : Nat) (w : Endpoint S) (left : List UInt8) : Prop where
  | between (hsize : w.nc.noise_msg.incomplete) (hleft : left = w.nc.noise_msg.held ++ w.env.rx.bytes)
  | inside (len : Nat) (got : List UInt8) (hinside : Inside buf len got w)
      (hleft : left = lenBytes len ++ got ++ w.env.rx.bytes)

/-- What a pass of the receiver leaves alone. -/
structure RecvFrame (w w' : Endpoint S) : Prop where
  noise : w'.noise = w.noise
  connection : w'.nc.connection = w.nc.connection
  id : w'.c.id = w.c.id
  allocs : w'.env.allocs = w.env.allocs

theorem RecvFrame.trans {u v w : Endpoint S} (h : RecvFrame u v) (h' : RecvFrame v w) :
    RecvFrame u w :=
  ⟨h'.noise.trans h.noise, h'.connection.trans h.connection, h'.id.trans h.id,
    h'.allocs.trans h.allocs⟩

theorem RecvFrame.receiving {w w' : Endpoint S} (h : RecvFrame w w') (hw : w.Receiving)
    (hlast : w'.nc.last ≠ NGX_ERROR) (hlive : w'.env.rx.Live) : w'.Receiving :=
  ⟨h.connection.trans (hw.connection.trans h.id.symm), hlast, h.allocs.trans hw.allocs, hlive⟩

/-- A socket read into memory. -/
theorem recv_at_spec {w : Endpoint S} (part : Part) (addr : Nat) {size : Nat} {answer : Net.Answer}
    {rx : Net.Incoming} (h : w.env.rx.recv size = (answer, rx)) :
    ∃ v : Endpoint S, w.recv_at part addr size = (answerCode answer, v) ∧ v.env.rx = rx ∧
      v.nc = w.nc ∧ v.mem = w.mem.write addr (answerBytes answer) ∧ RecvFrame w v := by
  refine ⟨_, Prod.ext ?_ rfl, ?_, rfl, ?_, ⟨rfl, rfl, rfl, rfl⟩⟩
  all_goals simp [recv_at, ngx_recv, h]

theorem recv_body_inside {N : NoiseC S} {buf len size : Nat} {got : List UInt8} {w : Endpoint S}
    (h : Inside buf len got w) :
    recv_body N size w =
      let r := w.recv_at (.msg_data len) (buf + 2 + got.length) (len - got.length)
      let b : RawBuf := ⟨buf + 2, buf + 2 + got.length + r.1.toNat, buf + 2, buf + 2 + len⟩
      if 0 < r.1 then
        if got.length + r.1.toNat = len then
          ok (.done ((r.2.setRecvBuf (some b)).recv_frame N (buf + 2) len size))
        else ok (.cont (r.2.setRecvBuf (some b)))
      else ok (.done (r.1, (if r.1 ≠ NGX_AGAIN then r.2.end_frame else r.2).setLast r.1)) := by
  have hroom : buf + 2 + len - (buf + 2 + got.length) = len - got.length := by omega
  have hfull : ∀ n, buf + 2 + got.length + n - (buf + 2) = got.length + n := by omega
  simp only [recv_body, h.recv_buf, h.size, SizeField.recv_size, Option.getD_some, hroom, hfull]

/-- A pass that gets a chunk of the frame. -/
theorem recv_body_data (N : NoiseC S) {buf len : Nat} {got chunk : List UInt8}
    {w : Endpoint S} {rx : Net.Incoming} (h : Inside buf len got w)
    (hrecv : w.env.rx.recv (len - got.length) = (.data chunk, rx)) (hpos : 0 < chunk.length) :
    ∃ v : Endpoint S, RecvFrame w v ∧ v.env.rx = rx ∧ v.nc.last = w.nc.last ∧
      v.mem.read (buf + 2) (got ++ chunk).length = got ++ chunk ∧
      v.nc.noise_msg = .known len ∧
      v.nc.recv_buf = some ⟨buf + 2, buf + 2 + (got ++ chunk).length, buf + 2, buf + 2 + len⟩ ∧
      w.mem.Writes v.mem (Set.Ico (buf + 2 + got.length) (buf + 2 + got.length + chunk.length)) ∧
      ∀ size, recv_body N size w = if (got ++ chunk).length = len then
        ok (.done (v.recv_frame N (buf + 2) len size)) else ok (.cont v) := by
  obtain ⟨v, hat, hrx, hnc, hmem, hframe⟩ :=
    recv_at_spec (.msg_data len) (buf + 2 + got.length) hrecv
  refine ⟨v.setRecvBuf (some ⟨buf + 2, buf + 2 + (got ++ chunk).length, buf + 2, buf + 2 + len⟩),
    ⟨hframe.noise, hframe.connection, hframe.id, hframe.allocs⟩, hrx, ?_, ?_, ?_, rfl, ?_, fun size => ?_⟩
  · show v.nc.last = _
    rw [hnc]
  · show v.mem.read _ _ = _
    rw [hmem]
    exact w.mem.read_write_append (buf + 2) got chunk h.mem
  · show v.nc.noise_msg = _
    rw [hnc, h.size]
  · show w.mem.Writes v.mem _
    rw [hmem]
    exact w.mem.writes_write (buf + 2 + got.length) chunk
  · rw [recv_body_inside h, hat]
    have hcode : (0 : Int) < chunk.length := by omega
    simp only [answerCode, hcode, if_true, Int.toNat_natCast, List.length_append, Nat.add_assoc]

/-- A pass that pauses. -/
theorem recv_body_again (N : NoiseC S) {buf len : Nat} {got : List UInt8}
    {w : Endpoint S} {rx : Net.Incoming} (h : Inside buf len got w)
    (hrecv : w.env.rx.recv (len - got.length) = (.again, rx)) :
    ∃ v : Endpoint S, RecvFrame w v ∧ v.env.rx = rx ∧ v.nc.last = NGX_AGAIN ∧ Inside buf len got v ∧
      w.mem.Writes v.mem ∅ ∧ ∀ size, recv_body N size w = ok (.done (NGX_AGAIN, v)) := by
  obtain ⟨v, hat, hrx, hnc, hmem, hframe⟩ :=
    recv_at_spec (.msg_data len) (buf + 2 + got.length) hrecv
  refine ⟨v.setLast NGX_AGAIN, ⟨hframe.noise, hframe.connection, hframe.id, hframe.allocs⟩, hrx, rfl,
    ⟨?_, ?_, ?_, h.short, h.fits⟩, ?_, fun size => ?_⟩
  · show v.nc.noise_msg = _
    rw [hnc, h.size]
  · show v.nc.recv_buf = _
    rw [hnc, h.recv_buf]
  · show v.mem.read _ _ = _
    rw [hmem, Memory.read_write_of_disjoint _ _ _ _ _ (.inl (Nat.le_refl _)), h.mem]
  · show w.mem.Writes v.mem ∅
    rw [hmem]
    exact w.mem.writes_write_nil (buf + 2 + got.length)
  · rw [recv_body_inside h, hat]
    simp [answerCode]

/-- Inside a frame the receiver gets to its end, or pauses and keeps what it has. The
induction is on the passes, each of which takes at least one byte. -/
theorem recv_loop_spec {N : NoiseC S} {buf size : Nat} {sealed rest : List UInt8} {fuel : Nat}
    {got : List UInt8} {w : Endpoint S} (hfuel : sealed.length - got.length < fuel)
    (hw : w.Receiving) (hinside : Inside buf sealed.length got w)
    (hbytes : got ++ w.env.rx.bytes = sealed ++ rest) :
    (∃ v, loop (recv_body N size) fuel w = ok (v.recv_frame N (buf + 2) sealed.length size) ∧
        RecvFrame w v ∧ v.Receiving ∧ v.mem.read (buf + 2) sealed.length = sealed ∧
        v.env.rx.bytes = rest ∧ v.env.rx.pauses = w.env.rx.pauses) ∨
      ∃ v got', loop (recv_body N size) fuel w = ok (NGX_AGAIN, v) ∧ RecvFrame w v ∧
        v.Receiving ∧ Inside buf sealed.length got' v ∧
        got' ++ v.env.rx.bytes = sealed ++ rest ∧ v.env.rx.pauses + 1 = w.env.rx.pauses := by
  induction fuel generalizing got w with
  | zero => omega
  | succ fuel ih =>
    have hshort := hinside.short
    obtain ⟨chunk, rx, hrecv, hlive, hrx, hpauses, hpos, hle⟩ | ⟨rx, hrecv, hlive, hrx, hless⟩ :=
      hw.live.recv (show 0 < sealed.length - got.length by omega)
    · obtain ⟨v, hframe, hv, hlast, hmem, hsize, hbuf, -, hbody⟩ :=
        recv_body_data N hinside hrecv hpos
      have hbody := hbody size
      have hv' : v.Receiving :=
        hframe.receiving hw (by rw [hlast]; exact hw.last) (by rw [hv]; exact hlive)
      have hleft : (got ++ chunk) ++ v.env.rx.bytes = sealed ++ rest := by
        rw [← hbytes, hrx, hv, List.append_assoc]
      have hlen : (got ++ chunk).length = got.length + chunk.length := List.length_append
      by_cases hfull : (got ++ chunk).length = sealed.length
      · rw [if_pos hfull] at hbody
        obtain ⟨hgot, hrest⟩ := List.append_inj hleft hfull
        refine .inl ⟨v, loop_of_done (Nat.succ_pos _) hbody, hframe, hv', ?_, hrest, by rw [hv, hpauses]⟩
        rw [← hfull, hmem, hgot]
      · rw [if_neg hfull] at hbody
        rw [loop_of_cont hbody]
        have hinside' : Inside buf sealed.length (got ++ chunk) v :=
          ⟨hsize, hbuf, hmem, by omega, hinside.fits⟩
        have hsame : v.env.rx.pauses = w.env.rx.pauses := by rw [hv, hpauses]
        obtain ⟨u, hloop, hframe', hu, hread, hrest, hp⟩ | ⟨u, got', hloop, hframe', hu, hin, hrest, hp⟩ :=
          ih (by omega) hv' hinside' hleft
        · exact .inl ⟨u, hloop, hframe.trans hframe', hu, hread, hrest, hp.trans hsame⟩
        · exact .inr ⟨u, got', hloop, hframe.trans hframe', hu, hin, hrest, hp.trans hsame⟩
    · obtain ⟨v, hframe, hv, hlast, hin, -, hbody⟩ := recv_body_again N hinside hrecv
      have hbody := hbody size
      have hv' : v.Receiving := hframe.receiving hw (by simp [hlast]) (by rw [hv]; exact hlive)
      refine .inr ⟨v, got, loop_of_done (Nat.succ_pos _) hbody, hframe, hv', hin, ?_, ?_⟩
      · rw [hv, hrx, hbytes]
      · obtain hless | ⟨-, hnil⟩ := hless
        · rw [hv, hless]
        · -- the stream holds the whole frame
          have hlen := congrArg List.length hbytes
          simp only [hnil, List.length_append, List.length_nil] at hlen
          omega

/-- The receiver is between two frames, or inside one that is not complete. -/
structure Receiver (buf : Nat) (w : Endpoint S) (left : List UInt8) : Prop extends Receiving w where
  framing : Framing buf w left

/-- The last step of a frame that noise-c can open: the payload is at offset 4. -/
theorem recv_frame_spec {N : NoiseC S} {buf size : Nat} {sealed payload : List UInt8} {noise : S}
    {v : Endpoint S} (hv : v.Receiving) (hread : v.mem.read (buf + 2) sealed.length = sealed)
    (hopen : N.cipherstate_decrypt sealed v.noise =
      ((NOISE_ERROR_NONE, lenBytes payload.length ++ payload), noise))
    (hsize : payload.length ≤ size) (hfits : payload.length < 65536) :
    ∃ u : Endpoint S, v.recv_frame N (buf + 2) sealed.length size = ((payload.length : Int), u) ∧
      u.mem.read (buf + 4) payload.length = payload ∧ u.noise = noise ∧
      u.env.rx = v.env.rx ∧ Receiver buf u v.env.rx.bytes := by
  let mem := v.mem.write (buf + 2) (lenBytes payload.length ++ payload)
  have hfirst : mem.byte (buf + 2) = UInt8.ofNat (payload.length / 256) :=
    v.mem.byte_write_of_getElem? (i := 0) rfl
  have hsecond : mem.byte (buf + 2 + 1) = UInt8.ofNat payload.length :=
    v.mem.byte_write_of_getElem? (i := 1) rfl
  have hplain : be16 (mem.byte (buf + 2)) (mem.byte (buf + 2 + 1)) = payload.length := by
    rw [hfirst, hsecond, be16_lenBytes hfits]
  have hframe : v.recv_frame N (buf + 2) sealed.length size =
      ((payload.length : Int), ((({ v with noise, mem } : Endpoint S).setReadReady true).end_frame).setLast
        0) := by
    unfold recv_frame
    rw [hread, hopen]
    dsimp only
    rw [if_neg (by simp), hplain, if_neg (by omega)]
  refine ⟨_, hframe, ?_, rfl, rfl, ⟨hv.connection, ?_, hv.allocs, hv.live⟩, .between rfl rfl⟩
  · exact v.mem.read_write_part (buf + 2) (lenBytes payload.length) payload
  · simp [setLast]

/-- A call between two frames begins with the length. -/
theorem recv_of_incomplete {N : NoiseC S} {fuel buf size : Nat} {w : Endpoint S}
    (hconnection : w.nc.connection = w.c.id) (hlast : w.nc.last ≠ NGX_ERROR)
    (hsize : w.nc.noise_msg.incomplete) :
    w.recv N fuel buf size = (w.read_noise_msg_len fuel >>= fun r =>
      if r.1 ≠ NGX_OK then ok r else
      match r.2.nc.noise_msg.recv_size with
      | none => ok (NGX_AGAIN, r.2)
      | some len =>
        if buf = 0 then ok (NGX_ERROR, r.2)
        else if ¬ r.2.ngx_alloc.1 then ok (NGX_ERROR, r.2.ngx_alloc.2)
        else
          loop (recv_body N size) fuel (r.2.ngx_alloc.2.setRecvBuf
            (some ⟨buf + 2, buf + 2, buf + 2, buf + 2 + len⟩))) := by
  unfold recv
  rw [if_neg (not_not.mpr hconnection), if_neg hlast]
  cases hnm : w.nc.noise_msg with
  | known size => simp [hnm, SizeField.incomplete] at hsize
  | unset => rfl
  | first b0 => rfl

/-- The part of a call in front of the loop: the length is there, or the call pauses. -/
theorem recv_between {N : NoiseC S} {fuel buf : Nat} {left : List UInt8} {w : Endpoint S}
    (hfuel : 2 ≤ fuel) (hbuf : buf ≠ 0) (hw : w.Receiving) (hsize : w.nc.noise_msg.incomplete)
    (hleft : left = w.nc.noise_msg.held ++ w.env.rx.bytes) (size : Nat) :
    (∃ b0 b1 v, w.recv N fuel buf size = loop (recv_body N size) fuel v ∧ RecvFrame w v ∧
        v.Receiving ∧ v.nc.noise_msg = .known (be16 b0 b1) ∧
        v.nc.recv_buf = some ⟨buf + 2, buf + 2, buf + 2, buf + 2 + be16 b0 b1⟩ ∧
        left = b0 :: b1 :: v.env.rx.bytes ∧ v.env.rx.pauses = w.env.rx.pauses) ∨
      ∃ v, w.recv N fuel buf size = ok (NGX_AGAIN, v) ∧ RecvFrame w v ∧ Receiver buf v left ∧
        (v.env.rx.pauses + 1 = w.env.rx.pauses ∨ v.env.rx.bytes = []) := by
  obtain ⟨v, hlen, hresult⟩ := w.read_len_spec .noise_msg hfuel
  have hreads := hresult.frame.reads
  have hframe : RecvFrame w v := by
    refine ⟨hreads.noise, ?_, hreads.id, by rw [hresult.frame.env]⟩
    simpa [NoiseConnection.settled] using congrArg NoiseConnection.connection hreads.settled
  rw [recv_of_incomplete hw.connection hw.last hsize, read_noise_msg_len, hlen, bind_ok]
  obtain ⟨b0, b1, rx, htaken, hlive, hbytes, hpauses⟩ | ⟨saved, rx, htaken, hsaved, hlive, hbytes, hless⟩ :=
    take_len_live hsize hw.live
  all_goals
    have hsize' : v.nc.noise_msg = _ := hresult.size
    have hrx : v.env.rx = _ := hresult.rx
    have hlast : v.nc.last = _ := hresult.last
    rw [show w.nc.size .noise_msg = w.nc.noise_msg from rfl, htaken] at hsize' hrx hlast ⊢
  · have hv : v.Receiving := hframe.receiving hw (by rw [hlast]; exact hw.last) (by rw [hrx]; exact hlive)
    have halloc : v.ngx_alloc.1 = true := by simp [ngx_alloc, hv.allocs, nextAnswer]
    left
    refine ⟨b0, b1, v.ngx_alloc.2.setRecvBuf (some ⟨buf + 2, buf + 2, buf + 2, buf + 2 + be16 b0 b1⟩), ?_,
      ⟨hframe.noise, hframe.connection, hframe.id, ?_⟩, ⟨hv.connection, hv.last, ?_, hv.live⟩, hsize', rfl,
      ?_, ?_⟩
    · rw [if_neg (by simp [LenAnswer.code]), hsize']
      simp only [LenAnswer.size, SizeField.recv_size, if_neg hbuf, halloc, not_true, if_false]
    · show (nextAnswer v.env.allocs).2 = _
      rw [hv.allocs, hw.allocs]
      rfl
    · show (nextAnswer v.env.allocs).2 = _
      rw [hv.allocs]
      rfl
    · show left = b0 :: b1 :: v.env.rx.bytes
      rw [hleft, hbytes, hrx]
    · show v.env.rx.pauses = _
      rw [hrx, hpauses]
  · have hv : v.Receiving := hframe.receiving hw (by rw [hlast]; exact hw.last) (by rw [hrx]; exact hlive)
    right
    refine ⟨v, ?_, hframe, ⟨hv, .between ?_ ?_⟩, ?_⟩
    · rw [if_pos (by simp [LenAnswer.code])]
      rfl
    · rw [hsize']
      exact hsaved
    · rw [hsize', hrx, hleft]
      exact hbytes.symm
    · rw [hrx]
      exact hless

end Endpoint

end ngx_nsoc
