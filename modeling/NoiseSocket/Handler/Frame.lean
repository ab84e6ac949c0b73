import NoiseSocket.Handler.Handshake

open Exec Exec.Result

namespace ngx_nsoc

variable {S : Type}

/-- Whether an observation is of the receiving code. -/
def Obs.isRead : Obs → Bool
  | .recv .. => true
  | .negotiation .. => true
  | _ => false

/-- A noise connection without the fields that receiving and sending a message
change. -/
def NoiseConnection.settled (nc : NoiseConnection) : NoiseConnection :=
  { nc with msg_num := 0, last := 0, buf := none, neg_data := .unset, noise_msg := .unset }

/-- Reads for one part, newest first, and the bytes that they delivered. -/
inductive Deliveries (part : Part) : List UInt8 → List Obs → Prop where
  | nil : Deliveries part [] []
  | recv {bytes got : List UInt8} {obs : List Obs} {size : Nat} {n : Int} (h : Deliveries part bytes obs) :
      Deliveries part (bytes ++ got) (.recv part size n got :: obs)

theorem Deliveries.append {part : Part} {bytes more : List UInt8} {obs later : List Obs}
    (h : Deliveries part bytes obs) (hlater : Deliveries part more later) :
    Deliveries part (bytes ++ more) (later ++ obs) := by
  induction hlater with
  | nil => rwa [List.append_nil]
  | recv _ ih =>
    rw [← List.append_assoc]
    exact ih.recv

namespace Endpoint

/-- Bytes have been taken from the stream, all of them for one part. -/
def Took (part : Part) (w w' : Endpoint S) : Prop :=
  ∃ bytes obs, Deliveries part bytes obs ∧ w'.trace = obs ++ w.trace ∧
    w.env.rx.bytes = bytes ++ w'.env.rx.bytes

theorem took_nothing {part : Part} {w w' : Endpoint S} (htrace : w'.trace = w.trace)
    (hrx : w'.env.rx = w.env.rx) : Took part w w' :=
  ⟨[], [], .nil, htrace, congrArg Net.Incoming.bytes hrx.symm⟩

theorem Took.trans {part : Part} {u v w : Endpoint S} (h : Took part u v) (h' : Took part v w) :
    Took part u w := by
  obtain ⟨bytes, obs, hobs, htrace, hbytes⟩ := h
  obtain ⟨more, later, hlater, htrace', hmore⟩ := h'
  refine ⟨bytes ++ more, later ++ obs, hobs.append hlater, ?_, ?_⟩
  · rw [htrace', htrace, List.append_assoc]
  · rw [hbytes, hmore, List.append_assoc]

theorem took_recv (w : Endpoint S) (part : Part) (size : Nat) : Took part w (w.ngx_recv part size).2.2 := by
  rcases hrecv : w.env.rx.recv size with ⟨answer, rx⟩
  have hbytes : w.env.rx.bytes = answerBytes answer ++ rx.bytes := by
    cases answer with
    | data got => exact Net.Incoming.bytes_of_recv_data hrecv
    | eof | again | error => exact (Net.Incoming.bytes_of_recv_none hrecv (by simp)).symm
  refine ⟨answerBytes answer, [.recv part size (answerCode answer) (answerBytes answer)], ?_, ?_, ?_⟩
  · exact Deliveries.nil.recv
  · simp [ngx_recv, hrecv]
  · simpa [ngx_recv, hrecv] using hbytes

/-- Both events of the connection go to `ngx_nsoc_handshake_handler`. -/
structure IsHooked (w : Endpoint S) : Prop where
  read : w.c.read.handler = .handshake_handler
  write : w.c.write.handler = .handshake_handler

/-- What receiving code may do to a connection: the noise-c objects, the write
timer, the sending side and the settled part of the noise connection stay, the
events stay with the handshake, and only reads are observed. -/
structure Reads (w w' : Endpoint S) : Prop where
  noise : w'.noise = w.noise
  prologue : w'.prologue = w.prologue
  mem : w'.mem = w.mem
  id : w'.c.id = w.c.id
  transport : w'.c.transport = w.c.transport
  write_timer : w'.c.write.timer_set = w.c.write.timer_set
  settled : w'.nc.settled = w.nc.settled
  sends : w'.env.sends = w.env.sends
  tx : w'.env.tx = w.env.tx
  closed : w'.env.rx.closed = w.env.rx.closed
  allocs : w.env.allocs = [] → w'.env.allocs = []
  events : w.env.events = [] → w'.env.events = []
  hooked : w.IsHooked → w'.IsHooked
  trace : ∃ obs, w'.trace = obs ++ w.trace ∧ ∀ o ∈ obs, o.isRead

theorem Reads.refl (w : Endpoint S) : Reads w w :=
  ⟨rfl, rfl, rfl, rfl, rfl, rfl, rfl, rfl, rfl, rfl, fun h => h, fun h => h,
    fun h => h, [], rfl, by simp⟩

theorem Reads.trans {u v w : Endpoint S} (h : Reads u v) (h' : Reads v w) : Reads u w := by
  obtain ⟨obs, hobs, hread⟩ := h.trace
  obtain ⟨obs', hobs', hread'⟩ := h'.trace
  refine ⟨h'.noise.trans h.noise, h'.prologue.trans h.prologue, h'.mem.trans h.mem,
    h'.id.trans h.id, h'.transport.trans h.transport, h'.write_timer.trans h.write_timer,
    h'.settled.trans h.settled, h'.sends.trans h.sends, h'.tx.trans h.tx,
    h'.closed.trans h.closed, fun hq => h'.allocs (h.allocs hq), fun hq => h'.events (h.events hq),
    fun hk => h'.hooked (h.hooked hk), obs' ++ obs, by simp [hobs', hobs], ?_⟩
  intro o ho
  rcases List.mem_append.mp ho with ho | ho
  · exact hread' o ho
  · exact hread o ho

theorem Reads.handshaked {w w' : Endpoint S} (h : Reads w w') :
    w'.nc.handshaked = w.nc.handshaked := by
  simpa [NoiseConnection.settled] using congrArg NoiseConnection.handshaked h.settled

theorem Reads.handshake_phase {w w' : Endpoint S} (h : Reads w w') :
    w'.nc.handshake_phase = w.nc.handshake_phase := by
  simpa [NoiseConnection.settled] using congrArg NoiseConnection.handshake_phase h.settled

theorem Reads.noise_role {w w' : Endpoint S} (h : Reads w w') :
    w'.nc.noise_role = w.nc.noise_role := by
  simpa [NoiseConnection.settled] using congrArg NoiseConnection.noise_role h.settled

theorem reads_setSize (w : Endpoint S) (f : LenField) (size : SizeField) :
    Reads w (w.setSize f size) := by
  cases f <;> exact ⟨rfl, rfl, rfl, rfl, rfl, rfl, rfl, rfl, rfl, rfl, id, id, fun h => ⟨h.1, h.2⟩, [], rfl, by simp⟩

theorem reads_setLast (w : Endpoint S) (last : Int) : Reads w (w.setLast last) :=
  ⟨rfl, rfl, rfl, rfl, rfl, rfl, rfl, rfl, rfl, rfl, id, id, fun h => ⟨h.1, h.2⟩, [], rfl, by simp⟩

theorem reads_setBuf (w : Endpoint S) (buf : Option Buf) : Reads w (w.setBuf buf) :=
  ⟨rfl, rfl, rfl, rfl, rfl, rfl, rfl, rfl, rfl, rfl, id, id, fun h => ⟨h.1, h.2⟩, [], rfl, by simp⟩

theorem reads_setMsgNum (w : Endpoint S) (msg_num : Nat) : Reads w (w.setMsgNum msg_num) :=
  ⟨rfl, rfl, rfl, rfl, rfl, rfl, rfl, rfl, rfl, rfl, id, id, fun h => ⟨h.1, h.2⟩, [], rfl, by simp⟩

theorem reads_setReadTimer (w : Endpoint S) (armed : Bool) : Reads w (w.setReadTimer armed) :=
  ⟨rfl, rfl, rfl, rfl, rfl, rfl, rfl, rfl, rfl, rfl, id, id, fun h => ⟨h.1, h.2⟩, [], rfl, by simp⟩

theorem reads_setHandlers (w : Endpoint S) : Reads w (w.setHandlers .handshake_handler) :=
  ⟨rfl, rfl, rfl, rfl, rfl, rfl, rfl, rfl, rfl, rfl, id, id, fun _ => ⟨rfl, rfl⟩, [], rfl, by simp⟩

theorem reads_handle_event (w : Endpoint S) : Reads w w.ngx_handle_event.2 := by
  refine ⟨rfl, rfl, rfl, rfl, rfl, rfl, rfl, rfl, rfl, rfl, id, ?_, fun h => ⟨h.1, h.2⟩, [], rfl,
    by simp⟩
  intro hquiet
  simp [ngx_handle_event, hquiet, nextAnswer]

theorem reads_alloc (w : Endpoint S) : Reads w w.ngx_alloc.2 := by
  refine ⟨rfl, rfl, rfl, rfl, rfl, rfl, rfl, rfl, rfl, rfl, ?_, id, fun h => ⟨h.1, h.2⟩, [], rfl,
    by simp⟩
  intro hquiet
  simp [ngx_alloc, hquiet, nextAnswer]

theorem reads_log (w : Endpoint S) {o : Obs} (ho : o.isRead) : Reads w (w.log o) :=
  ⟨rfl, rfl, rfl, rfl, rfl, rfl, rfl, rfl, rfl, rfl, id, id, fun h => ⟨h.1, h.2⟩, [o], rfl,
    by simpa using ho⟩

theorem read_handler_recv (w : Endpoint S) (part : Part) (size : Nat) :
    (w.ngx_recv part size).2.2.c.read.handler = w.c.read.handler := by
  simp only [ngx_recv]
  generalize (w.env.rx.recv size).1 = answer
  rcases answer with (_ | ⟨_, _⟩) | _ | _ | _ <;> rfl

theorem reads_recv (w : Endpoint S) (part : Part) (size : Nat) :
    Reads w (w.ngx_recv part size).2.2 := by
  refine ⟨rfl, rfl, rfl, rfl, rfl, rfl, rfl, rfl, rfl, Net.closed_recv _ _, id, id, ?_, [_], rfl, ?_⟩
  · intro h
    exact ⟨(w.read_handler_recv part size).trans h.read, h.write⟩
  · simp [Obs.isRead]

theorem reads_read_again (w : Endpoint S) : Reads w w.read_again.2 := by
  have hevent := (w.reads_setLast NOISE_ACTION_READ_MESSAGE).trans (reads_handle_event _)
  unfold read_again
  dsimp only
  split_ifs
  · exact hevent
  · exact hevent.trans (reads_setReadTimer _ _)

theorem reads_read_finish (w : Endpoint S) (n : Int) (size : Nat) :
    Reads w (w.read_finish n size).2 := by
  have hevent := (w.reads_setLast NOISE_ACTION_READ_MESSAGE).trans (reads_handle_event _)
  unfold read_finish
  dsimp only
  split_ifs
  · exact hevent
  · exact hevent
  · exact .refl w

end Endpoint

end ngx_nsoc
