import NoiseSocket.Handler.Data.Calls

open Exec Exec.Result

namespace Net.Incoming

/-- No read gives anything back. -/
theorem length_bytes_recv_le {s rx : Incoming} {size : Nat} {answer : Answer} (h : s.recv size = (answer, rx)) :
    rx.bytes.length ≤ s.bytes.length := by
  cases answer with
  | data got =>
    rw [bytes_of_recv_data h, List.length_append]
    exact Nat.le_add_left _ _
  | again | eof | error => rw [bytes_of_recv_none h (by simp)]

end Net.Incoming

namespace ngx_nsoc

variable {S : Type}

/-- What a length reader does on any stream, in terms of the bytes that are left and of those that have
arrived. -/
inductive Taken (left here : List UInt8) : LenAnswer × Net.Incoming → Prop where
  | got {b0 b1 : UInt8} {rx : Net.Incoming} (hbytes : left = b0 :: b1 :: rx.bytes)
      (hhere : here = b0 :: b1 :: rx.arrived) : Taken left here (.got (be16 b0 b1), rx)
  | again {saved : SizeField} {rx : Net.Incoming} (hsaved : saved.incomplete)
      (hbytes : saved.held ++ rx.bytes = left) (hshort : here.length < 2) :
      Taken left here (.again saved, rx)
  | error (saved : SizeField) (rx : Net.Incoming) (hshort : here.length < 2) :
      Taken left here (.error saved, rx)
  | closed {saved : SizeField} (hsaved : saved = .unset ∨ ∃ b0, saved = .known (UInt8.toNat b0))
      (hshort : here.length < 2) : Taken left here (.closed saved, ⟨[], true⟩)

theorem second_byte_taken (b0 : UInt8) {saved : SizeField}
    (hsaved : saved = .unset ∨ ∃ b0, saved = .known (UInt8.toNat b0)) (rx : Net.Incoming) :
    Taken (b0 :: rx.bytes) (b0 :: rx.arrived) (second_byte b0 saved rx) := by
  obtain ⟨items, closed⟩ := rx
  cases items with
  | nil =>
    cases closed with
    | false => exact .again rfl rfl (Nat.lt_succ_self 1)
    | true => exact .closed hsaved (Nat.lt_succ_self 1)
  | cons item rest =>
    cases item with
    | again => exact .again rfl rfl (Nat.lt_succ_self 1)
    | error => exact .error _ _ (Nat.lt_succ_self 1)
    | data b1 bs =>
      apply Taken.got
      · rw [Net.Incoming.bytes_unread]
        rfl
      · rw [Net.Incoming.arrived_unread]
        rfl

theorem both_bytes_taken (rx : Net.Incoming) : Taken rx.bytes rx.arrived (both_bytes rx) := by
  obtain ⟨items, closed⟩ := rx
  cases items with
  | nil =>
    cases closed with
    | false => exact .again rfl rfl Nat.two_pos
    | true => exact .closed (.inl rfl) Nat.two_pos
  | cons item rest =>
    cases item with
    | again => exact .again rfl rfl Nat.two_pos
    | error => exact .error _ _ Nat.two_pos
    | data b0 bs =>
      cases bs with
      | nil => exact second_byte_taken b0 (.inl rfl) ⟨rest, closed⟩
      | cons b1 bs =>
        apply Taken.got
        · rw [Net.Incoming.bytes_unread]
          rfl
        · rw [Net.Incoming.arrived_unread]
          rfl

theorem take_len_taken {size : SizeField} (hsize : size.incomplete) (rx : Net.Incoming) :
    Taken (size.held ++ rx.bytes) (size.held ++ rx.arrived) (take_len size rx) := by
  cases size with
  | known size => simp [SizeField.incomplete] at hsize
  | unset => exact both_bytes_taken rx
  | first b0 => exact second_byte_taken b0 (.inr ⟨b0, rfl⟩) rx

namespace Endpoint

/-- A connection on which nothing has failed. -/
structure Listening (w : Endpoint S) : Prop where
  connection : w.nc.connection = w.c.id
  last : w.nc.last ≠ NGX_ERROR
  allocs : w.env.allocs = []

theorem RecvFrame.listening {w w' : Endpoint S} (h : RecvFrame w w') (hw : w.Listening)
    (hlast : w'.nc.last ≠ NGX_ERROR) : w'.Listening :=
  ⟨h.connection.trans (hw.connection.trans h.id.symm), hlast, h.allocs.trans hw.allocs⟩

/-- The stream is over, and no frame is under way. -/
structure Ended (w : Endpoint S) : Prop extends Listening w where
  rx : w.env.rx = ⟨[], true⟩
  size : w.nc.noise_msg = .unset

/-- The socket has failed. -/
structure Failed (w : Endpoint S) : Prop where
  connection : w.nc.connection = w.c.id
  last : w.nc.last = NGX_ERROR

/-- How a call ends that does not get to the end of a frame: it pauses, with `left` before it as it was,
the socket fails, or the stream is over. -/
inductive Broken (left : List UInt8) (w : Endpoint S) : Result (Int × Endpoint S) → Prop where
  | paused {buf : Nat} {v : Endpoint S} (hv : v.Listening) (hnoise : v.noise = w.noise)
      (hleft : Framing buf v left) : Broken left w (ok (NGX_AGAIN, v))
  | failed {v : Endpoint S} (hv : v.Failed) : Broken left w (ok (NGX_ERROR, v))
  | ended {v : Endpoint S} {n : Int} (hv : v.Ended) (hnoise : v.noise = w.noise)
      (hn : n = 0 ∨ n = NGX_AGAIN) : Broken left w (ok (n, v))

theorem Broken.of_noise {left : List UInt8} {v w : Endpoint S} {r : Result (Int × Endpoint S)}
    (h : Broken left v r) (hnoise : v.noise = w.noise) : Broken left w r := by
  cases h with
  | paused hv hsame hleft => exact .paused hv (hsame.trans hnoise) hleft
  | failed hv => exact .failed hv
  | ended hv hsame hn => exact .ended hv (hsame.trans hnoise) hn

/-- A pass of the loop of `ngx_nsoc_recv` whose read has no data, and is not to be tried again. -/
theorem recv_body_stop (N : NoiseC S) {len : Nat} {b : RawBuf} {w : Endpoint S} {answer : Net.Answer}
    {rx : Net.Incoming} (hsize : w.nc.noise_msg = .known len) (hb : w.nc.recv_buf = some b)
    (hrecv : w.env.rx.recv (b.stop - b.pos) = (answer, rx)) (hcode : answerCode answer ≤ 0)
    (hagain : answerCode answer ≠ NGX_AGAIN) :
    ∃ v : Endpoint S, RecvFrame w v ∧ v.env.rx = rx ∧ v.nc.last = answerCode answer ∧
      v.nc.noise_msg = .unset ∧ w.mem.Writes v.mem ∅ ∧
      ∀ size, recv_body N size w = ok (.done (answerCode answer, v)) := by
  obtain ⟨v, hat, hrx, hnc, hmem, hframe⟩ := recv_at_spec (.msg_data len) b.pos hrecv
  refine ⟨v.end_frame.setLast (answerCode answer),
    ⟨hframe.noise, hframe.connection, hframe.id, hframe.allocs⟩, hrx, rfl, rfl, ?_, fun size => ?_⟩
  · have hnone : answerBytes answer = [] := by
      cases answer with
      | data got =>
        have hcode : (got.length : Int) ≤ 0 := hcode
        have hnil : got = [] := List.eq_nil_of_length_eq_zero (by omega)
        exact hnil
      | eof | again | error => rfl
    show w.mem.Writes v.mem ∅
    rw [hmem, hnone]
    exact w.mem.writes_write_nil b.pos
  simp only [recv_body, hb, hsize, SizeField.recv_size, Option.getD_some, hat]
  rw [if_neg (by omega), if_pos hagain]

/-- Inside a frame a call gets to its end where all of it has arrived, or breaks off with what it had
before it. What it writes is what has arrived. The induction is on the passes, each of which takes at least
one byte. -/
theorem recv_loop_ends {N : NoiseC S} {buf : Nat} {sealed rest : List UInt8} {fuel : Nat}
    {got : List UInt8} {w : Endpoint S} (hfuel : sealed.length - got.length < fuel)
    (hw : w.Listening) (hinside : Inside buf sealed.length got w)
    (hbytes : got ++ w.env.rx.bytes <+: sealed ++ rest) :
    (∃ v : Endpoint S, (∀ size, loop (recv_body N size) fuel w =
          ok (v.recv_frame N (buf + 2) sealed.length size)) ∧ v.Listening ∧ v.noise = w.noise ∧
        v.mem.read (buf + 2) sealed.length = sealed ∧ v.env.rx.bytes <+: rest ∧
        sealed.length ≤ got.length + w.env.rx.arrived.length ∧
        w.mem.Writes v.mem (Set.Ico (buf + 2 + got.length) (buf + 2 + sealed.length))) ∨
      ∃ result, Broken (lenBytes sealed.length ++ got ++ w.env.rx.bytes) w result ∧
        got.length + w.env.rx.arrived.length < sealed.length ∧
        (∀ r, result = ok r → w.mem.Writes r.2.mem
          (Set.Ico (buf + 2 + got.length) (buf + 2 + got.length + w.env.rx.arrived.length))) ∧
        ∀ size, loop (recv_body N size) fuel w = result := by
  induction fuel generalizing got w with
  | zero => omega
  | succ fuel ih =>
    have hshort := hinside.short
    have hroom : buf + 2 + sealed.length - (buf + 2 + got.length) = sealed.length - got.length := by
      omega
    obtain ⟨answer, rx, hrecv⟩ : ∃ answer rx, w.env.rx.recv (sealed.length - got.length) = (answer, rx) :=
      ⟨_, _, rfl⟩
    have hstop : answerCode answer ≤ 0 → answerCode answer ≠ NGX_AGAIN →
        ∃ v : Endpoint S, RecvFrame w v ∧ v.env.rx = rx ∧ v.nc.last = answerCode answer ∧
          v.nc.noise_msg = .unset ∧ w.mem.Writes v.mem ∅ ∧
          ∀ size, recv_body N size w = ok (.done (answerCode answer, v)) :=
      recv_body_stop N hinside.size hinside.recv_buf (by rw [hroom]; exact hrecv)
    -- without data nothing has arrived, and nothing is written
    have hbroken : ∀ {v : Endpoint S} {n : Int}, (∀ got, answer ≠ .data got) → w.mem.Writes v.mem ∅ →
        Broken (lenBytes sealed.length ++ got ++ w.env.rx.bytes) w (ok (n, v)) →
        (∀ size, recv_body N size w = ok (.done (n, v))) →
        ∃ result, Broken (lenBytes sealed.length ++ got ++ w.env.rx.bytes) w result ∧
          got.length + w.env.rx.arrived.length < sealed.length ∧
          (∀ r, result = ok r → w.mem.Writes r.2.mem
            (Set.Ico (buf + 2 + got.length) (buf + 2 + got.length + w.env.rx.arrived.length))) ∧
          ∀ size, loop (recv_body N size) (fuel + 1) w = result := by
      intro v n hnone hmem hends hbody
      have harrived := Net.Incoming.arrived_of_recv_none hrecv hnone
      refine ⟨_, hends, by simpa [harrived] using hshort, ?_,
        fun size => loop_of_done (Nat.succ_pos _) (hbody size)⟩
      rintro _ ⟨⟩
      simpa [harrived] using hmem
    cases answer with
    | data chunk =>
      obtain ⟨hpos, hle⟩ := Net.length_of_recv_data (by omega) hrecv
      obtain ⟨v, hframe, hv, hlast, hmem, hsize, hbuf, hwrites, hbody⟩ :=
        recv_body_data N hinside hrecv hpos
      have hv' : v.Listening := hframe.listening hw (by rw [hlast]; exact hw.last)
      have hchunk := Net.Incoming.bytes_of_recv_data hrecv
      have hsplit : got ++ w.env.rx.bytes = (got ++ chunk) ++ v.env.rx.bytes := by
        rw [hchunk, hv, List.append_assoc]
      have hleft := hbytes
      rw [hsplit] at hleft
      have hlen : (got ++ chunk).length = got.length + chunk.length := List.length_append
      have harrived : w.env.rx.arrived.length = chunk.length + v.env.rx.arrived.length := by
        rw [Net.Incoming.arrived_of_recv_data hrecv, List.length_append, hv]
      by_cases hfull : (got ++ chunk).length = sealed.length
      · obtain ⟨cut, hcut⟩ := hleft
        rw [List.append_assoc] at hcut
        obtain ⟨hgot, hrest⟩ := List.append_inj hcut hfull
        refine .inl ⟨v, fun size => loop_of_done (Nat.succ_pos _) ?_, hv', hframe.noise, ?_, ⟨cut, hrest⟩,
          by omega, ?_⟩
        · rw [hbody size, if_pos hfull]
        · rw [← hfull, hmem, hgot]
        · rw [← hfull, hlen, ← Nat.add_assoc]
          exact hwrites
      · have hgoes : ∀ size, loop (recv_body N size) (fuel + 1) w = loop (recv_body N size) fuel v := by
          intro size
          apply loop_of_cont
          rw [hbody size, if_neg hfull]
        have hinside' : Inside buf sealed.length (got ++ chunk) v :=
          ⟨hsize, hbuf, hmem, by omega, hinside.fits⟩
        have hjoin : ∀ {u : Endpoint S} {stop : Nat}, buf + 2 + (got ++ chunk).length ≤ stop →
            v.mem.Writes u.mem (Set.Ico (buf + 2 + (got ++ chunk).length) stop) →
            w.mem.Writes u.mem (Set.Ico (buf + 2 + got.length) stop) := by
          intro u stop hstop hmore
          have hall := hwrites.trans hmore
          rwa [hlen, ← Nat.add_assoc, Set.Ico_union_Ico_eq_Ico (by omega) (by omega)] at hall
        obtain ⟨u, hloop, hu, hnoise, hread, hrest, hwhole, hmore⟩ |
            ⟨result, hbroken, hpart, hmore, hloop⟩ := ih (by omega) hv' hinside' hleft
        · exact .inl ⟨u, fun size => (hgoes size).trans (hloop size), hu, hnoise.trans hframe.noise, hread,
            hrest, by omega, hjoin (by omega) hmore⟩
        · rw [List.append_assoc, ← hsplit, ← List.append_assoc] at hbroken
          refine .inr ⟨result, hbroken.of_noise hframe.noise, by omega, fun r hr => ?_,
            fun size => (hgoes size).trans (hloop size)⟩
          have hwritten := hjoin (by omega) (hmore r hr)
          rwa [hlen, show buf + 2 + (got.length + chunk.length) + v.env.rx.arrived.length =
            buf + 2 + got.length + w.env.rx.arrived.length by omega] at hwritten
    | again =>
      obtain ⟨v, hframe, hv, hlast, hin, hmem, hbody⟩ := recv_body_again N hinside hrecv
      have hsame := Net.Incoming.bytes_of_recv_none hrecv (by simp)
      refine .inr (hbroken (by simp) hmem (.paused (hframe.listening hw (by simp [hlast])) hframe.noise
        (.inside _ got hin ?_)) hbody)
      rw [hv, hsame]
    | error =>
      obtain ⟨v, hframe, -, hlast, -, hmem, hbody⟩ := hstop (by simp [answerCode]) (by simp [answerCode])
      exact .inr (hbroken (by simp) hmem
        (.failed ⟨hframe.connection.trans (hw.connection.trans hframe.id.symm), hlast⟩) hbody)
    | eof =>
      obtain ⟨v, hframe, hv, hlast, hsize, hmem, hbody⟩ := hstop (by simp [answerCode]) (by simp [answerCode])
      have hend := Net.rx_of_recv_eof hrecv
      exact .inr (hbroken (by simp) hmem (.ended ⟨hframe.listening hw (by simp [hlast, answerCode]),
        hv.trans hend, hsize⟩ hframe.noise (.inl rfl)) hbody)

/-- A call in a frame that no byte has come in of, on a stream that is over. -/
theorem recv_loop_closed (N : NoiseC S) {fuel len : Nat} {b : RawBuf} {w : Endpoint S}
    (hfuel : 0 < fuel) (hw : w.Listening) (hrx : w.env.rx = ⟨[], true⟩)
    (hsize : w.nc.noise_msg = .known len) (hb : w.nc.recv_buf = some b) :
    ∃ v : Endpoint S, (∀ size, loop (recv_body N size) fuel w = ok (0, v)) ∧ v.Ended ∧
      v.noise = w.noise ∧ w.mem.Writes v.mem ∅ := by
  obtain ⟨v, hframe, hv, hlast, hunset, hmem, hbody⟩ := recv_body_stop N hsize hb
    (show w.env.rx.recv (b.stop - b.pos) = (.eof, ⟨[], true⟩) by rw [hrx]; rfl) (by simp [answerCode])
    (by simp [answerCode])
  refine ⟨v, fun size => loop_of_done hfuel (hbody size), ⟨hframe.listening hw ?_, hv, hunset⟩, hframe.noise,
    hmem⟩
  simp [hlast, answerCode]

/-- The part of a call in front of the loop, on any stream. -/
theorem recv_front {N : NoiseC S} {fuel buf : Nat} {w : Endpoint S} (hfuel : 2 ≤ fuel) (hbuf : buf ≠ 0)
    (hw : w.Listening) (hsize : w.nc.noise_msg.incomplete) :
    (∃ b0 b1 v, (∀ size, w.recv N fuel buf size = loop (recv_body N size) fuel v) ∧ v.Listening ∧
        v.noise = w.noise ∧ v.nc.noise_msg = .known (be16 b0 b1) ∧
        v.nc.recv_buf = some ⟨buf + 2, buf + 2, buf + 2, buf + 2 + be16 b0 b1⟩ ∧ v.mem = w.mem ∧
        w.nc.noise_msg.held ++ w.env.rx.bytes = b0 :: b1 :: v.env.rx.bytes ∧
        w.nc.noise_msg.held ++ w.env.rx.arrived = b0 :: b1 :: v.env.rx.arrived) ∨
      ∃ result, Broken (w.nc.noise_msg.held ++ w.env.rx.bytes) w result ∧
        (w.nc.noise_msg.held ++ w.env.rx.arrived).length < 2 ∧
        (∀ r, result = ok r → w.mem.Writes r.2.mem ∅) ∧ ∀ size, w.recv N fuel buf size = result := by
  obtain ⟨v, hlen, hresult⟩ := w.read_len_spec .noise_msg hfuel
  have hreads := hresult.frame.reads
  have hframe : RecvFrame w v := by
    refine ⟨hreads.noise, ?_, hreads.id, by rw [hresult.frame.env]⟩
    simpa [NoiseConnection.settled] using congrArg NoiseConnection.connection hreads.settled
  have hsize' : v.nc.noise_msg = _ := hresult.size
  have hrx : v.env.rx = _ := hresult.rx
  have hlast : v.nc.last = _ := hresult.last
  have hcall := fun size =>
    @recv_of_incomplete _ N fuel buf size w hw.connection hw.last hsize
  simp only [read_noise_msg_len, hlen, bind_ok] at hcall
  have htaken := take_len_taken hsize w.env.rx
  have hopen : ∀ {len : Nat}, v.Listening → v.nc.noise_msg = .known len → ∃ u : Endpoint S,
      u = v.ngx_alloc.2.setRecvBuf (some ⟨buf + 2, buf + 2, buf + 2, buf + 2 + len⟩) ∧ u.Listening ∧
      u.nc.noise_msg = .known len ∧ u.env.rx = v.env.rx ∧ u.noise = v.noise ∧ u.mem = w.mem := by
    intro len hv hknown
    refine ⟨_, rfl, ⟨hv.connection, hv.last, ?_⟩, hknown, rfl, rfl, hreads.mem⟩
    show (nextAnswer v.env.allocs).2 = _
    rw [hv.allocs]
    rfl
  have halloc : v.Listening → v.ngx_alloc.1 = true := by
    intro hv
    simp [ngx_alloc, hv.allocs, nextAnswer]
  have hkept : ∀ (n : Int) (r : Int × Endpoint S), ok (n, v) = ok r → w.mem.Writes r.2.mem ∅ := by
    rintro n _ ⟨⟩
    show w.mem.Writes v.mem ∅
    rw [hreads.mem]
    exact .refl _
  rw [show w.nc.size .noise_msg = w.nc.noise_msg from rfl] at hsize' hrx hlast
  simp only [show w.nc.size .noise_msg = w.nc.noise_msg from rfl] at hcall
  generalize take_len w.nc.noise_msg w.env.rx = taken at *
  cases htaken with
  | @got b0 b1 rx hbytes hhere =>
    have hv : v.Listening := hframe.listening hw (by rw [hlast]; exact hw.last)
    obtain ⟨u, rfl, hu, hknown, hurx, hunoise, humem⟩ := hopen hv hsize'
    refine .inl ⟨b0, b1, _, fun size => ?_, hu, hunoise.trans hframe.noise, hknown, rfl, humem, ?_, ?_⟩
    · rw [hcall size, if_neg (by simp [LenAnswer.code]), hsize']
      simp only [LenAnswer.size, SizeField.recv_size, if_neg hbuf, halloc hv, not_true, if_false]
    · rw [hurx, hrx]
      exact hbytes
    · rw [hurx, hrx]
      exact hhere
  | @again saved rx hsaved hbytes hshort =>
    have hv : v.Listening := hframe.listening hw (by rw [hlast]; exact hw.last)
    refine .inr ⟨_, .paused hv hframe.noise (show Framing buf v _ from .between ?_ ?_), hshort,
      hkept _, fun size => ?_⟩
    · rw [hsize']
      exact hsaved
    · rw [hsize', hrx]
      exact hbytes.symm
    · rw [hcall size, if_pos (by simp [LenAnswer.code])]
      rfl
  | error saved rx hshort =>
    refine .inr ⟨_, .failed ⟨hframe.connection.trans (hw.connection.trans hframe.id.symm), hlast⟩,
      hshort, hkept _, fun size => ?_⟩
    rw [hcall size, if_pos (by simp [LenAnswer.code])]
    rfl
  | @closed saved hsaved hshort =>
    have hv : v.Listening := hframe.listening hw (by simp [hlast, LenAnswer.last])
    have hgoes := fun size => (hcall size).trans (if_neg (by simp [LenAnswer.code]))
    simp only [hsize'] at hgoes
    obtain rfl | ⟨b0, rfl⟩ := hsaved
    · exact .inr ⟨_, .ended ⟨hv, hrx, hsize'⟩ hframe.noise (.inr rfl), hshort,
        hkept _, hgoes⟩
    · -- the byte that was held is taken for the length
      obtain ⟨u, rfl, hu, hknown, hurx, hunoise, humem⟩ := hopen hv hsize'
      obtain ⟨u', hloop, hended, hnoise, hmem⟩ := recv_loop_closed N (show 0 < fuel by omega) hu
        (hurx.trans hrx) hknown rfl
      rw [humem] at hmem
      simp only [LenAnswer.size, SizeField.recv_size, if_neg hbuf, halloc hv, not_true, if_false] at hgoes
      refine .inr ⟨_, .ended hended (hnoise.trans (hunoise.trans hframe.noise)) (.inl rfl), hshort, ?_,
        fun size => (hgoes size).trans (hloop size)⟩
      rintro _ ⟨⟩
      exact hmem

/-- The receiver is between two frames, or inside one that is not complete, with `left` before it from
the start of the frame on. -/
structure Listener (w : Endpoint S) (left : List UInt8) : Prop extends Listening w where
  framing : ∃ buf, Framing buf w left

theorem Ended.listener {w : Endpoint S} (h : w.Ended) : Listener w [] := by
  refine ⟨h.toListening, 0, .between ?_ ?_⟩
  · rw [h.size]
    rfl
  · rw [h.size, h.rx]
    rfl

/-- Where a call leaves the payload: behind the two lengths of the buffer with which the frame was
begun. -/
def payload_at (w : Endpoint S) (buf : Nat) : Nat :=
  match w.nc.noise_msg, w.nc.recv_buf with
  | .known _, some b => b.start + NGX_NSOC_LEN_FIELD_SIZE
  | _, _ => buf + 2 * NGX_NSOC_LEN_FIELD_SIZE

theorem payload_at_incomplete {w : Endpoint S} (h : w.nc.noise_msg.incomplete) (buf : Nat) :
    w.payload_at buf = buf + 2 + 2 := by
  unfold payload_at
  cases hsize : w.nc.noise_msg with
  | known size => simp [hsize, SizeField.incomplete] at h
  | unset => rfl
  | first b0 => rfl

/-- The body of the frame that a call works on: where it is put, its length, how much of it is in, and what
has arrived behind that. -/
structure Body where
  start : Nat
  len : Nat
  got : Nat
  more : List UInt8

/-- All of the body has arrived. -/
def Body.Whole (b : Body) : Prop := b.len ≤ b.got + b.more.length

instance (b : Body) : Decidable b.Whole := inferInstanceAs (Decidable (_ ≤ _))

/-- Where a call writes: the part of the body that has arrived, and where that is the rest of it, the
plaintext over the front of the body. -/
def Body.footprint (b : Body) : Set Nat :=
  Set.Ico (b.start + b.got) (b.start + min (b.got + b.more.length) b.len) ∪
    if b.Whole then Set.Ico b.start (b.start + (b.len - NOISE_PROTOCOL_MAC_DATA_SIZE)) else ∅

/-- The body, where all of it has arrived. -/
def Body.bytes (b : Body) (mem : Memory) : List UInt8 := (mem.read b.start b.got ++ b.more).take b.len

/-- The body that a call with the buffer `buf` works on, if it comes to one. -/
def body (w : Endpoint S) (buf : Nat) : Option Body :=
  match w.nc.noise_msg, w.nc.recv_buf with
  | .known len, some b => some ⟨b.start, len, b.pos - b.start, w.env.rx.arrived⟩
  | size, _ =>
    match size.held ++ w.env.rx.arrived with
    | b0 :: b1 :: more => some ⟨buf + NGX_NSOC_LEN_FIELD_SIZE, be16 b0 b1, 0, more⟩
    | _ => none

/-- Where a call with the buffer `buf` writes. -/
def footprint (w : Endpoint S) (buf : Nat) : Set Nat :=
  match w.body buf with
  | none => ∅
  | some b => b.footprint

theorem body_incomplete {w : Endpoint S} (h : w.nc.noise_msg.incomplete) (buf : Nat) :
    w.body buf = match w.nc.noise_msg.held ++ w.env.rx.arrived with
      | b0 :: b1 :: more => some ⟨buf + 2, be16 b0 b1, 0, more⟩
      | _ => none := by
  unfold body
  cases hsize : w.nc.noise_msg with
  | known size => simp [hsize, SizeField.incomplete] at h
  | unset => rfl
  | first b0 => rfl

theorem body_short {w : Endpoint S} {buf : Nat} (h : w.nc.noise_msg.incomplete)
    (hshort : (w.nc.noise_msg.held ++ w.env.rx.arrived).length < 2) : w.body buf = none := by
  rw [body_incomplete h]
  cases hhere : w.nc.noise_msg.held ++ w.env.rx.arrived with
  | nil => rfl
  | cons b0 more =>
    cases more with
    | nil => rfl
    | cons b1 more =>
      simp only [hhere, List.length_cons] at hshort
      omega

theorem Inside.body_eq {w : Endpoint S} {start len : Nat} {got : List UInt8} (h : Inside start len got w)
    (buf : Nat) : w.body buf = some ⟨start + 2, len, got.length, w.env.rx.arrived⟩ := by
  have hgot : start + 2 + got.length - (start + 2) = got.length := by omega
  simp only [body, h.size, h.recv_buf, hgot]

/-- A call with the buffer `buf` gets to the end of the frame `sealed`, in the state `v`. -/
structure Completes (N : NoiseC S) (fuel buf : Nat) (sealed rest : List UInt8) (w : Endpoint S) (b : Body)
    (v : Endpoint S) : Prop where
  body : w.body buf = some b
  len : b.len = sealed.length
  whole : b.Whole
  short : b.got < b.len
  bytes : b.bytes w.mem = sealed
  payload_at : w.payload_at buf = b.start + 2
  call : ∀ size, w.recv N fuel buf size = ok (v.recv_frame N b.start sealed.length size)
  listening : v.Listening
  noise : v.noise = w.noise
  read : v.mem.read b.start sealed.length = sealed
  rest : v.env.rx.bytes <+: rest
  writes : w.mem.Writes v.mem (Set.Ico (b.start + b.got) (b.start + sealed.length))

/-- A call with the buffer `buf` breaks off, with `left` before it. -/
structure Breaks (N : NoiseC S) (fuel buf : Nat) (left : List UInt8) (w : Endpoint S)
    (result : Result (Int × Endpoint S)) : Prop where
  broken : Broken left w result
  part : ∀ b, w.body buf = some b → ¬ b.Whole
  writes : ∀ r, result = ok r → w.mem.Writes r.2.mem (w.footprint buf)
  call : ∀ size, w.recv N fuel buf size = result

section

variable {N : NoiseC S} {fuel buf : Nat} {sealed left rest : List UInt8} {w : Endpoint S}

/-- The part of a call behind the length of the frame. -/
theorem recv_body_ends {start : Nat} {got : List UInt8} {v : Endpoint S} (hfuel : 65536 ≤ fuel)
    (hcall : ∀ size, w.recv N fuel buf size = loop (recv_body N size) fuel v) (hv : v.Listening)
    (hinside : Inside start sealed.length got v) (hbytes : got ++ v.env.rx.bytes <+: sealed ++ rest)
    (hnoise : v.noise = w.noise) (hmem : v.mem = w.mem)
    (hbody : w.body buf = some ⟨start + 2, sealed.length, got.length, v.env.rx.arrived⟩)
    (hat : w.payload_at buf = start + 2 + 2) :
    (∃ b u, Completes N fuel buf sealed rest w b u) ∨
      ∃ result, Breaks N fuel buf (lenBytes sealed.length ++ got ++ v.env.rx.bytes) w result := by
  have hfits := hinside.fits
  obtain ⟨u, hloop, hu, hsame, hread, hend, hwhole, hwrites⟩ | ⟨result, hbroken, hpart, hwrites, hloop⟩ :=
    recv_loop_ends (N := N) (show sealed.length - got.length < fuel by omega) hv hinside hbytes
  all_goals rw [hmem] at hwrites
  · refine .inl ⟨_, u, hbody, rfl, hwhole, hinside.short, ?_, hat, fun size => (hcall size).trans (hloop size), hu,
      hsame.trans hnoise, hread, hend, hwrites⟩
    obtain ⟨more, hmore⟩ : got ++ v.env.rx.arrived <+: sealed ++ rest :=
      ((List.prefix_append_right_inj got).mpr v.env.rx.arrived_prefix).trans hbytes
    rw [← List.length_append] at hwhole
    show (w.mem.read (start + 2) got.length ++ v.env.rx.arrived).take sealed.length = sealed
    have hcut : (got ++ v.env.rx.arrived ++ more).take sealed.length =
        (got ++ v.env.rx.arrived).take sealed.length := List.take_append_of_le_length hwhole
    rw [← hmem, hinside.mem, ← hcut, hmore]
    exact List.take_left' rfl
  · refine .inr ⟨result, hbroken.of_noise hnoise, ?_, fun r hr => ?_,
      fun size => (hcall size).trans (hloop size)⟩
    · intro b hb
      obtain rfl := Option.some.inj (hbody.symm.trans hb)
      exact Nat.not_le_of_lt hpart
    · have hstop : min (got.length + v.env.rx.arrived.length) sealed.length =
          got.length + v.env.rx.arrived.length := Nat.min_eq_left (Nat.le_of_lt hpart)
      have hnot : ¬ sealed.length ≤ got.length + v.env.rx.arrived.length := Nat.not_le_of_lt hpart
      simpa only [footprint, hbody, Body.footprint, Body.Whole, hstop, if_neg hnot, Set.union_empty,
        Nat.add_assoc] using hwrites r hr

/-- A call with a frame before it, the end of which may be missing. Its size matters only behind the end
of the frame. -/
theorem recv_ends (hfuel : 65536 ≤ fuel) (hbuf : buf ≠ 0) (hw : Listener w left)
    (hleft : left <+: lenBytes sealed.length ++ sealed ++ rest) (hpos : 0 < sealed.length)
    (hfits : sealed.length < 65536) :
    (∃ b v, Completes N fuel buf sealed rest w b v) ∨ ∃ result, Breaks N fuel buf left w result := by
  obtain ⟨start, hframing⟩ := hw.framing
  cases hframing with
  | between hincomplete hbytes =>
    obtain ⟨b0, b1, v, hcall, hv, hnoise, hknown, hrecv, hmem, hheld, hhere⟩ |
        ⟨result, hbroken, hshort, hmem, hcall⟩ :=
      recv_front (N := N) (show 2 ≤ fuel by omega) hbuf hw.toListening hincomplete
    · rw [hbytes, hheld] at hleft
      obtain ⟨rfl, rfl, hrest⟩ : b0 = UInt8.ofNat (sealed.length / 256) ∧
          b1 = UInt8.ofNat sealed.length ∧ v.env.rx.bytes <+: sealed ++ rest := by
        simpa [lenBytes, List.cons_prefix_cons] using hleft
      rw [be16_lenBytes hfits] at hknown hrecv
      have hinside : Inside buf sealed.length [] v := ⟨hknown, hrecv, rfl, hpos, hfits⟩
      have hbody : w.body buf = some ⟨buf + 2, sealed.length, 0, v.env.rx.arrived⟩ := by
        rw [body_incomplete hincomplete, hhere]
        dsimp only
        rw [be16_lenBytes hfits]
      rw [hbytes, hheld]
      exact recv_body_ends hfuel hcall hv hinside hrest hnoise hmem hbody (payload_at_incomplete hincomplete buf)
    · have hbody : w.body buf = none := body_short hincomplete hshort
      have hnone : w.footprint buf = ∅ := by rw [footprint, hbody]
      rw [hbytes]
      exact .inr ⟨result, hbroken, by simp [hbody], by rwa [hnone], hcall⟩
  | inside len got hinside hbytes =>
    obtain ⟨cut, hcut⟩ := hleft
    rw [hbytes, List.append_assoc, List.append_assoc, List.append_assoc] at hcut
    obtain ⟨hlen, hrest⟩ := List.append_inj hcut rfl
    obtain rfl := lenBytes_inj hinside.fits hfits hlen
    rw [← List.append_assoc] at hrest
    have hcall : ∀ size, w.recv N fuel buf size = loop (recv_body N size) fuel w := by
      intro size
      unfold recv
      rw [if_neg (not_not.mpr hw.connection), if_neg hw.last, hinside.size]
    have hat : w.payload_at buf = start + 2 + 2 := by
      simp only [payload_at, hinside.size, hinside.recv_buf]
    rw [hbytes]
    exact recv_body_ends hfuel hcall hw.toListening hinside ⟨cut, hrest⟩ rfl rfl (hinside.body_eq buf) hat

/-- A call with no frame before it writes nothing. -/
theorem recv_ends_nil (hfuel : 2 ≤ fuel) (hbuf : buf ≠ 0) (hw : Listener w []) (size : Nat) :
    Broken [] w (w.recv N fuel buf size) ∧ w.body buf = none ∧
      ∀ r, w.recv N fuel buf size = ok r → w.mem.Writes r.2.mem ∅ := by
  obtain ⟨start, hframing⟩ := hw.framing
  cases hframing with
  | between hincomplete hbytes =>
    obtain ⟨b0, b1, v, -, -, -, -, -, -, hheld, -⟩ | ⟨result, hbroken, hshort, hmem, hcall⟩ :=
      recv_front (N := N) hfuel hbuf hw.toListening hincomplete
    · rw [← hbytes] at hheld
      cases hheld
    · rw [hcall size]
      rw [← hbytes] at hbroken
      exact ⟨hbroken, body_short hincomplete hshort, hmem⟩
  | inside len got hinside hbytes => simp [lenBytes] at hbytes

/-- Behind a failure of the socket every call fails. -/
theorem recv_failed (hw : w.Failed) (size : Nat) :
    ∃ v, w.recv N fuel buf size = ok (NGX_ERROR, v) ∧ v.Failed := by
  refine ⟨w.setReadError, ?_, ⟨hw.connection, hw.last⟩⟩
  unfold recv
  rw [if_neg (not_not.mpr hw.connection), if_pos hw.last]

end

end Endpoint

end ngx_nsoc
