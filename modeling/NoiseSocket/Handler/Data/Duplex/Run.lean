import NoiseSocket.Handler.Data.Duplex
import NoiseSocket.Handler.Data.Resume
import NoiseSocket.Lib.Fifo

open Exec Exec.Result

namespace ngx_nsoc

variable {S T R : Type}

open Endpoint

/-- One end of a connection: the bytes on the way to it, the history of the payloads that go out from it,
and whether one of its calls has failed. -/
structure Party (S : Type) where
  w : Endpoint S
  pending : List UInt8
  history : List (Fifo.Event (List UInt8))
  failed : Bool

/-- A connection between two endpoints. -/
structure Channel (S : Type) where
  near : Party S
  far : Party S

def Channel.swap (c : Channel S) : Channel S := ⟨c.far, c.near⟩

/-- What happens at the near end: a payload is stored behind two length fields and written, a call reads,
at most `n + 1` of the bytes on the way arrive as a segment, or the socket will have no data for a
moment. -/
inductive Act where
  | write (data : Nat) (payload : List UInt8)
  | recv (buf size : Nat)
  | deliver (n : Nat)
  | pause
deriving DecidableEq, Repr

/-- The socket gets something in store for its reader. -/
def Party.feed (p : Party S) (item : Net.Item) : Party S :=
  { p with w := { p.w with env := { p.w.env with rx := { p.w.env.rx with
    items := p.w.env.rx.items ++ [item] } } } }

def Act.apply (N : NoiseC S) (fuel : Nat) (act : Act) (c : Channel S) : Result (Channel S) :=
  match act with
  | .write data payload => do
    let size := payload.length + 2 * NGX_NSOC_LEN_FIELD_SIZE
    let r ← (c.near.w.store data payload).write N fuel data size
    ok { near := { c.near with
           w := r.2
           history := c.near.history ++ [.put payload]
           failed := c.near.failed || r.1 != size }
         far := { c.far with pending := c.far.pending ++ r.2.env.tx.drop c.near.w.env.tx.length } }
  | .recv buf size => do
    let r ← c.near.w.recv N fuel buf size
    if r.1 = NGX_AGAIN then ok { c with near := { c.near with w := r.2 } }
    else
      let payload := r.2.mem.read (c.near.w.payload_at buf) r.1.toNat
      ok { near := { c.near with w := r.2, failed := c.near.failed || r.1 < 0 }
           far := { c.far with history := c.far.history ++ [.take payload] } }
  | .deliver n =>
    match c.near.pending.take (n + 1) with
    | [] => ok c
    | b :: bs =>
      ok { c with near := { c.near.feed (.data b bs) with pending := c.near.pending.drop (n + 1) } }
  | .pause => ok { c with near := c.near.feed .again }

/-- A payload fits the connection and a frame, it is written at a time when the socket takes the whole
frame before it first takes nothing, its buffer lies apart from the body of a frame that is being
received, and a read is given room for the next payload. -/
def Act.Allowed (act : Act) (c : Channel S) : Prop :=
  match act with
  | .write data payload => data ≠ 0 ∧
      payload.length ≤ min c.near.w.nc.buffer_size NOISE_PROTOCOL_PAYLOAD_SIZE ∧
      takes_whole (payload.length + 20) c.near.w.env.sends = true ∧
      ∀ b, c.near.w.nc.recv_buf = some b → data + payload.length + 20 ≤ b.start ∨ b.stop ≤ data
  | .recv buf size => buf ≠ 0 ∧ ∀ payload ∈ (Fifo.left c.far.history).head?, payload.length ≤ size
  | .deliver _ => True
  | .pause => True

/-- Acts of the two ends in any order. -/
inductive Channel.Runs (N : NoiseC S) (fuel : Nat) (start : Channel S) : Channel S → Prop where
  | refl : Runs N fuel start start
  | near {c c' : Channel S} (h : Runs N fuel start c) (act : Act) (hallowed : act.Allowed c)
      (hstep : act.apply N fuel c = ok c') : Runs N fuel start c'
  | far {c c' : Channel S} (h : Runs N fuel start c) (act : Act) (hallowed : act.Allowed c.swap)
      (hstep : act.apply N fuel c.swap = ok c') : Runs N fuel start c'.swap

/-- One direction: the payloads that are under way are those of the frames that the receiver has before
it, and they are what a queue holds behind the history of this direction. -/
structure Way (N : NoiseC S) (sending : S → T) (receiving : S → R) (Sync : T → R → Prop)
    (sender receiver : Party S) : Prop where
  ready : receiver.w.Receiving
  flight : ∃ frames payloads start left,
    Flight N receiving Sync (sending sender.w.noise) receiver.w.noise frames payloads ∧
    Framing start receiver.w left ∧ left ++ receiver.pending = wire frames ∧
    Fifo.Runs [] sender.history payloads

/-- Both ends of a connection, on which nothing has failed. -/
structure Channel.Sound (N : NoiseC S) (sending : S → T) (receiving : S → R) (Sync : T → R → Prop)
    (c : Channel S) : Prop where
  near : c.near.w.Idle 0
  far : c.far.w.Idle 0
  there : Way N sending receiving Sync c.near c.far
  back : Way N sending receiving Sync c.far c.near
  near_failed : c.near.failed = false
  far_failed : c.far.failed = false

section

variable {N : NoiseC S} {sending : S → T} {receiving : S → R} {Sync : T → R → Prop} {fuel : Nat}
  {c c' : Channel S}

theorem Channel.Sound.swap (h : c.Sound N sending receiving Sync) :
    c.swap.Sound N sending receiving Sync :=
  ⟨h.far, h.near, h.back, h.there, h.far_failed, h.near_failed⟩

/-- More has come in behind what a receiver has before it. -/
theorem framing_feed {start : Nat} {w v : Endpoint S} {left more : List UInt8} (h : Framing start w left)
    (hnc : v.nc = w.nc) (hmem : v.mem = w.mem) (hrx : v.env.rx.bytes = w.env.rx.bytes ++ more) :
    Framing start v (left ++ more) := by
  cases h with
  | between hsize hleft =>
    refine .between (by rw [hnc]; exact hsize) ?_
    rw [hnc, hrx, hleft, List.append_assoc]
  | inside len got hinside hleft =>
    refine .inside len got ⟨?_, ?_, ?_, hinside.short, hinside.fits⟩ ?_
    · rw [hnc, hinside.size]
    · rw [hnc, hinside.recv_buf]
    · rw [hmem, hinside.mem]
    · rw [hrx, hleft, List.append_assoc]

theorem bytes_feed (p : Party S) (item : Net.Item) :
    (p.feed item).w.env.rx.bytes = p.w.env.rx.bytes ++ Net.Incoming.bytes ⟨[item], false⟩ := by
  simp [Party.feed, Net.Incoming.bytes]

theorem receiving_feed {p : Party S} (h : p.w.Receiving) {item : Net.Item} (hitem : item ≠ .error) :
    (p.feed item).w.Receiving := by
  refine ⟨h.connection, h.last, h.allocs, h.live.closed, ?_⟩
  intro hmem
  obtain hold | hnew := List.mem_append.mp hmem
  · exact h.live.error hold
  · exact hitem (List.mem_singleton.mp hnew).symm

/-- A write leaves the frame that is being received alone, where its buffer lies apart from it. -/
theorem framing_write {start data : Nat} {payload left : List UInt8} {w : Endpoint S}
    {r : Int × Endpoint S} (hN : N.Tagged) (h : Framing start w left)
    (hcall : (w.store data payload).write N fuel data (payload.length + 4) = ok r)
    (hapart : ∀ b, w.nc.recv_buf = some b → data + payload.length + 20 ≤ b.start ∨ b.stop ≤ data) :
    Framing start r.2 left := by
  have hnc := (write_outcome hcall).nc
  have hrx := (recv_half_write hcall).rx
  change r.2.env.rx = w.env.rx at hrx
  have hsize : r.2.nc.noise_msg = w.nc.noise_msg := by rw [hnc]; rfl
  have hrecv_buf : r.2.nc.recv_buf = w.nc.recv_buf := by rw [hnc]; rfl
  cases h with
  | between hincomplete hleft => exact .between (hsize ▸ hincomplete) (by rw [hsize, hrx, hleft])
  | inside len got hinside hleft =>
    refine .inside len got ⟨hsize.trans hinside.size, hrecv_buf.trans hinside.recv_buf, ?_, hinside.short,
      hinside.fits⟩ (by rw [hrx, hleft])
    have hstore : w.mem.WritesWithin (w.store data payload).mem
        (Set.Ico data (data + payload.length + 20)) :=
      w.mem.within_write payload (by omega) (by dsimp only [NGX_NSOC_LEN_FIELD_SIZE]; omega)
    have hwrites := hstore.trans (confined_write hN (Nat.le_refl data)
      (fun _ => by dsimp only [NGX_NSOC_LEN_FIELD_SIZE]; omega) hcall)
    rw [hwrites.read, hinside.mem]
    intro x hx
    obtain ⟨hlo, hhi⟩ := Set.mem_Ico.mp hx
    have hshort := hinside.short
    have hout := hapart _ hinside.recv_buf
    dsimp only at hout
    omega

/-- A write hands its payload over. -/
theorem sound_write (hN : Ciphers N sending receiving Sync) (htagged : N.Tagged) (hfuel : 65538 ≤ fuel)
    (h : c.Sound N sending receiving Sync) {data : Nat} {payload : List UInt8}
    (hallowed : (Act.write data payload).Allowed c) :
    ∃ c', (Act.write data payload).apply N fuel c = ok c' ∧ c'.Sound N sending receiving Sync := by
  obtain ⟨hdata, hroom, hwhole, hapart⟩ := hallowed
  obtain ⟨hbuffer, hmax⟩ := Nat.le_min.mp hroom
  have hfits : payload.length ≤ 65517 := hmax
  obtain ⟨frames, payloads, start, left, hflight, hframing, hleft, hfifo⟩ := h.there.flight
  obtain ⟨sealed, noise, hseal, hlen, hflight'⟩ := hflight.send hN hmax
  have hidle : (c.near.w.store data payload).Idle payload.length :=
    ⟨h.near.connection, hbuffer, h.near.to_send, h.near.send_buf, h.near.alloc⟩
  obtain ⟨⟨n, v⟩, hcall, hresult⟩ := hidle.write hdata (c.near.w.mem.read_write_self (data + 4) payload)
    hseal (show sealed.length + 2 ≤ fuel by omega)
  have hsends : takes_whole (sealed.length + 2) (c.near.w.store data payload).env.sends = true := by
    rw [hlen]
    exact hwhole
  obtain ⟨-, rfl, rfl, htx, hto_send⟩ | ⟨hstop, -⟩ := hresult
  swap
  · cases hsends.symm.trans hstop
  have hwrote := write_outcome hcall
  have hhalf := recv_half_write hcall
  have hallocs : v.env.allocs = [] := hhalf.allocs h.back.ready.allocs
  have hnc : v.nc = { c.near.w.nc with to_send := v.nc.to_send, send_buf := v.nc.send_buf } := hwrote.nc
  have hc : v.c = c.near.w.c := hwrote.c
  have hconnection : v.nc.connection = v.c.id := by
    rw [hnc, hc]
    exact h.near.connection
  have hv : v.Idle 0 :=
    ⟨hconnection, Nat.zero_le _, hto_send, (hwrote.sent rfl).2, by simp [ngx_alloc, hallocs, nextAnswer]⟩
  have hout : v.env.tx.drop c.near.w.env.tx.length = lenBytes sealed.length ++ sealed := by
    rw [htx]
    exact List.drop_left
  obtain ⟨frames', payloads', start', left', hback, hframing', hleft', hfifo'⟩ := h.back.flight
  have hreceiving : receiving v.noise = receiving c.near.w.noise := by
    have hkeeps := hN.encrypt (lenBytes payload.length ++ payload) c.near.w.noise
    rwa [hseal] at hkeeps
  have hlast : v.nc.last ≠ NGX_ERROR := by
    rw [hnc]
    exact h.back.ready.last
  have hlive : v.env.rx.Live := by
    have hrx := hhalf.rx
    change v.env.rx = c.near.w.env.rx at hrx
    rw [hrx]
    exact h.back.ready.live
  have hstep : (Act.write data payload).apply N fuel c = ok
      { near := { c.near with
          w := v
          history := c.near.history ++ [.put payload]
          failed := c.near.failed || ((payload.length + 4 : Nat) : Int) != (payload.length + 4 : Nat) }
        far := { c.far with pending := c.far.pending ++ v.env.tx.drop c.near.w.env.tx.length } } := by
    simp only [Act.apply]
    rw [show payload.length + 2 * NGX_NSOC_LEN_FIELD_SIZE = payload.length + 4 from rfl, hcall]
    rfl
  refine ⟨_, hstep, hv, h.far, ?_, ?_, ?_, h.far_failed⟩
  · refine ⟨h.there.ready, _, _, start, left, hflight', hframing, ?_, hfifo.snoc_put payload⟩
    show left ++ (c.far.pending ++ v.env.tx.drop c.near.w.env.tx.length) = _
    rw [hout, ← List.append_assoc, hleft]
    simp [wire]
  · exact ⟨⟨hconnection, hlast, hallocs, hlive⟩, _, _, start', left', hback.congr hN hreceiving,
      framing_write htagged hframing' hcall hapart, hleft', hfifo'⟩
  · simp [h.near_failed]

/-- A call of `ngx_nsoc_recv` takes the first of the payloads that are under way, or leaves them there. -/
theorem sound_recv (hN : Ciphers N sending receiving Sync) (hfuel : 65538 ≤ fuel)
    (h : c.Sound N sending receiving Sync) {buf size : Nat} (hallowed : (Act.recv buf size).Allowed c) :
    ∃ c', (Act.recv buf size).apply N fuel c = ok c' ∧ c'.Sound N sending receiving Sync := by
  obtain ⟨hbuf, hsize⟩ := hallowed
  obtain ⟨frames, payloads, start, left, hflight, hframing, hleft, hfifo⟩ := h.back.flight
  obtain ⟨frames', payloads', start', left', hthere, hframing', hleft', hfifo'⟩ := h.there.flight
  have hsender : ∀ {n : Int} {u : Endpoint S}, c.near.w.recv N fuel buf size = ok (n, u) →
      u.Receiving → u.Idle 0 := by
    intro n u hcall hu
    have hhalf := send_half_recv hcall
    exact ⟨hu.connection, Nat.zero_le _, hhalf.to_send.trans h.near.to_send,
      hhalf.send_buf.trans h.near.send_buf, by simp [ngx_alloc, hu.allocs, nextAnswer]⟩
  -- a call that pauses
  have hpaused : ∀ {start₁ : Nat} {u : Endpoint S}, c.near.w.recv N fuel buf size = ok (NGX_AGAIN, u) →
      u.Receiving → u.noise = c.near.w.noise → Framing start₁ u left →
      ∃ c', (Act.recv buf size).apply N fuel c = ok c' ∧ c'.Sound N sending receiving Sync := by
    intro start₁ u hcall hu hnoise hframing₁
    have hstep : (Act.recv buf size).apply N fuel c = ok { c with near := { c.near with w := u } } := by
      simp only [Act.apply, hcall, bind_ok, if_true]
    refine ⟨_, hstep, hsender hcall hu, h.far, ⟨h.there.ready, frames', payloads', start', left', ?_,
      hframing', hleft', hfifo'⟩, ⟨hu, frames, payloads, start₁, left, ?_, hframing₁, hleft, hfifo⟩,
      h.near_failed, h.far_failed⟩
    · show Flight N receiving Sync (sending u.noise) _ _ _
      rw [hnoise]
      exact hthere
    · show Flight N receiving Sync _ u.noise _ _
      rw [hnoise]
      exact hflight
  cases hflight with
  | nil hsync =>
    obtain rfl : left = [] := (List.append_eq_nil_iff.mp hleft).1
    obtain ⟨u, hcall, hu, hnoise, hnil⟩ :=
      recv_live_nil (N := N) (show 2 ≤ fuel by omega) hbuf h.back.ready hframing
    exact hpaused hcall hu hnoise hnil
  | @cons _ noise sealed payload frames payloads hlen hmax hopen hrest =>
    have hfits : payload.length ≤ 65517 := hmax
    have hwire : wire (sealed :: frames) = lenBytes sealed.length ++ sealed ++ wire frames := rfl
    rw [hwire] at hleft
    have hend : LiveEnd N buf size sealed left c.near.w (c.near.w.recv N fuel buf size) :=
      recv_live (show 65536 ≤ fuel by omega) hbuf h.back.ready hframing ⟨_, hleft⟩ (by omega) (by omega)
    generalize hresult : c.near.w.recv N fuel buf size = result at hend
    cases hend with
    | paused hu hnoise hframing₁ => exact hpaused hresult hu hnoise hframing₁
    | @whole at_ v hv hnoise hread hat hbytes =>
      have hroom : payload.length ≤ size := hsize payload (by rw [hfifo.left_eq]; rfl)
      rw [← hnoise] at hopen
      obtain ⟨u, hdone, hpayload, rfl, hrx, hu⟩ := recv_frame_spec hv hread hopen hroom (by omega)
      rw [hdone] at hresult
      have hcode : ¬ (payload.length : Int) = NGX_AGAIN := by
        simp only [NGX_AGAIN]
        omega
      have hpos : decide ((payload.length : Int) < 0) = false := by
        apply decide_eq_false
        omega
      have hstep : (Act.recv buf size).apply N fuel c = ok
          { near := { c.near with w := u, failed := c.near.failed || false }
            far := { c.far with history := c.far.history ++ [.take payload] } } := by
        simp only [Act.apply, hresult, bind_ok, if_neg hcode, hat, Int.toNat_natCast, hpayload, hpos]
      refine ⟨_, hstep, hsender hresult hu.toReceiving, h.far, ?_, ?_, ?_, h.far_failed⟩
      · refine ⟨h.there.ready, frames', payloads', start', left', ?_, hframing', hleft', hfifo'⟩
        have hkeeps := hN.decrypt sealed v.noise
        rw [hopen] at hkeeps
        show Flight N receiving Sync (sending u.noise) _ _ _
        rw [hkeeps, hnoise]
        exact hthere
      · refine ⟨hu.toReceiving, frames, payloads, at_, _, hrest, hu.framing, ?_, hfifo.snoc_take⟩
        rw [hbytes, List.append_assoc] at hleft
        exact List.append_cancel_left hleft
      · simp [h.near_failed]

/-- Bytes arrive in the order in which they were sent. -/
theorem sound_deliver (h : c.Sound N sending receiving Sync) (n : Nat) :
    ∃ c', (Act.deliver n).apply N fuel c = ok c' ∧ c'.Sound N sending receiving Sync := by
  obtain ⟨frames, payloads, start, left, hflight, hframing, hleft, hfifo⟩ := h.back.flight
  cases htake : c.near.pending.take (n + 1) with
  | nil => exact ⟨c, by simp only [Act.apply, htake], h⟩
  | cons b bs =>
    have hstep : (Act.deliver n).apply N fuel c = ok { c with
        near := { c.near.feed (.data b bs) with pending := c.near.pending.drop (n + 1) } } := by
      simp only [Act.apply, htake]
    refine ⟨_, hstep, ?_, h.far, ?_, ?_, h.near_failed, h.far_failed⟩
    · exact ⟨h.near.connection, h.near.buffer_size, h.near.to_send, h.near.send_buf, h.near.alloc⟩
    · exact ⟨h.there.ready, h.there.flight⟩
    · refine ⟨receiving_feed h.back.ready (by simp), frames, payloads, start, left ++ (b :: bs), hflight,
        framing_feed hframing rfl rfl ?_, ?_, hfifo⟩
      · rw [bytes_feed]
        simp [Net.Incoming.bytes]
      · show left ++ (b :: bs) ++ c.near.pending.drop (n + 1) = _
        rw [← htake, List.append_assoc, List.take_append_drop, hleft]

theorem sound_pause (h : c.Sound N sending receiving Sync) :
    ∃ c', Act.pause.apply N fuel c = ok c' ∧ c'.Sound N sending receiving Sync := by
  obtain ⟨frames, payloads, start, left, hflight, hframing, hleft, hfifo⟩ := h.back.flight
  refine ⟨_, rfl, ?_, h.far, ⟨h.there.ready, h.there.flight⟩, ?_, h.near_failed, h.far_failed⟩
  · exact ⟨h.near.connection, h.near.buffer_size, h.near.to_send, h.near.send_buf, h.near.alloc⟩
  · refine ⟨receiving_feed h.back.ready (by simp), frames, payloads, start, left ++ [], hflight,
      framing_feed hframing rfl rfl ?_, by rwa [List.append_nil], hfifo⟩
    rw [bytes_feed]
    simp [Net.Incoming.bytes]

/-- Every act goes through. -/
theorem Act.sound (hN : Ciphers N sending receiving Sync) (htagged : N.Tagged) (hfuel : 65538 ≤ fuel)
    (act : Act) (h : c.Sound N sending receiving Sync) (hallowed : act.Allowed c) :
    ∃ c', act.apply N fuel c = ok c' ∧ c'.Sound N sending receiving Sync := by
  cases act with
  | write data payload => exact sound_write hN htagged hfuel h hallowed
  | recv buf size => exact sound_recv hN hfuel h hallowed
  | deliver n => exact sound_deliver h n
  | pause => exact sound_pause h

theorem Channel.Runs.sound (hN : Ciphers N sending receiving Sync) (htagged : N.Tagged)
    (hfuel : 65538 ≤ fuel) (hrun : c.Runs N fuel c') (h : c.Sound N sending receiving Sync) :
    c'.Sound N sending receiving Sync := by
  induction hrun with
  | refl => exact h
  | near _ act hallowed hstep ih =>
    obtain ⟨c₁, hcall, hsound⟩ := act.sound hN htagged hfuel ih hallowed
    cases hstep.symm.trans hcall
    exact hsound
  | far _ act hallowed hstep ih =>
    obtain ⟨c₁, hcall, hsound⟩ := act.sound hN htagged hfuel ih.swap hallowed
    cases hstep.symm.trans hcall
    exact hsound.swap

/-- Nothing is on the way to this end, and all that has arrived has been read. -/
def Party.Drained (p : Party S) : Prop := p.pending = [] ∧ p.w.env.rx.bytes = []

/-- What a receiver has read of frames of which the last one is not complete. -/
theorem Way.empty_of_drained {sender receiver : Party S} (h : Way N sending receiving Sync sender receiver)
    (hdrained : receiver.Drained) : Fifo.Runs [] sender.history [] := by
  obtain ⟨frames, payloads, start, left, hflight, hframing, hleft, hfifo⟩ := h.flight
  obtain ⟨hpending, hbytes⟩ := hdrained
  rw [hpending, List.append_nil] at hleft
  cases hflight with
  | nil => exact hfifo
  | @cons _ _ sealed payload frames payloads hlen hmax hopen hrest =>
    have hfits : payload.length ≤ 65517 := hmax
    rw [hleft] at hframing
    have hreceiver : Receiver start receiver.w (lenBytes sealed.length ++ sealed ++ wire frames) :=
      ⟨h.ready, hframing⟩
    exact absurd hbytes (hreceiver.bytes_ne_nil (by omega))

end

/-- What is before an end, arrived or still on the way, are the frames of the payloads that a queue holds
behind `history`. -/
def Party.AtFrames (p : Party S) (history : List (Fifo.Event (List UInt8))) : Prop :=
  ∃ frames payloads, List.Forall₂ (fun sealed payload => sealed.length = payload.length + 18) frames payloads ∧
    p.w.env.rx.bytes ++ p.pending = wire frames ∧ Fifo.Runs [] history payloads

/-- A connection behind its handshake: nothing has been sent, and the ciphers of the two ends agree. -/
structure Channel.Fresh (sending : S → T) (receiving : S → R) (Sync : T → R → Prop) (c : Channel S) :
    Prop where
  ready : ∀ p ∈ [c.near, c.far], p.w.Idle 0 ∧ p.w.Receiving ∧ p.w.nc.noise_msg = .unset
  quiet : ∀ p ∈ [c.near, c.far], p.Drained ∧ p.history = [] ∧ p.failed = false
  there : Sync (sending c.near.w.noise) (receiving c.far.w.noise)
  back : Sync (sending c.far.w.noise) (receiving c.near.w.noise)

section

variable {N : NoiseC S} {sending : S → T} {receiving : S → R} {Sync : T → R → Prop} {fuel : Nat}
  {c c' : Channel S}

theorem Channel.Fresh.sound (h : c.Fresh sending receiving Sync) : c.Sound N sending receiving Sync := by
  have hway : ∀ {sender receiver : Party S}, receiver ∈ [c.near, c.far] → sender.history = [] →
      Sync (sending sender.w.noise) (receiving receiver.w.noise) →
      Way N sending receiving Sync sender receiver := by
    intro sender receiver hmem hhistory hsync
    obtain ⟨-, hready, hunset⟩ := h.ready receiver hmem
    obtain ⟨⟨hpending, hbytes⟩, -, -⟩ := h.quiet receiver hmem
    refine ⟨hready, [], [], 0, [], .nil hsync, .between (by rw [hunset]; rfl) ?_, by rw [hpending]; rfl,
      by rw [hhistory]; exact .nil []⟩
    rw [hunset, hbytes]
    rfl
  have hnear : c.near ∈ [c.near, c.far] := List.mem_cons_self
  have hfar : c.far ∈ [c.near, c.far] := List.mem_cons_of_mem _ List.mem_cons_self
  exact ⟨(h.ready _ hnear).1, (h.ready _ hfar).1, hway hfar (h.quiet _ hnear).2.1 h.there,
    hway hnear (h.quiet _ hfar).2.1 h.back, (h.quiet _ hnear).2.2, (h.quiet _ hfar).2.2⟩

/-- An end that has begun no frame. -/
theorem Way.at_frames {sender receiver : Party S} (h : Way N sending receiving Sync sender receiver)
    (hunset : receiver.w.nc.noise_msg = .unset) : receiver.AtFrames sender.history := by
  obtain ⟨frames, payloads, start, left, hflight, hframing, hleft, hfifo⟩ := h.flight
  refine ⟨frames, payloads, hflight.lengths, ?_, hfifo⟩
  cases hframing with
  | between _ hbytes =>
    rw [hunset] at hbytes
    rw [← hleft, hbytes]
    rfl
  | inside len got hinside _ => cases hunset.symm.trans hinside.size

/-- An established connection is a pair of queues of payloads. However the calls of the two ends and the
arrivals of bytes interleave, the history of each direction is one of a queue, which is empty once
nothing is on the way, no call fails, and every further call returns. -/
theorem channel_refines_queues (hN : Ciphers N sending receiving Sync) (htagged : N.Tagged)
    (hfuel : 65538 ≤ fuel) (hstart : c.Fresh sending receiving Sync) (hrun : c.Runs N fuel c') :
    (∃ queue, Fifo.Runs [] c'.near.history queue ∧ (c'.far.Drained → queue = [])) ∧
      (∃ queue, Fifo.Runs [] c'.far.history queue ∧ (c'.near.Drained → queue = [])) ∧
      c'.near.failed = false ∧ c'.far.failed = false ∧
      ∀ act : Act, (act.Allowed c' → ∃ next, act.apply N fuel c' = ok next) ∧
        (act.Allowed c'.swap → ∃ next, act.apply N fuel c'.swap = ok next) := by
  have hsound := hrun.sound hN htagged hfuel (hstart.sound (N := N))
  have hqueue : ∀ {sender receiver : Party S}, Way N sending receiving Sync sender receiver →
      ∃ queue, Fifo.Runs [] sender.history queue ∧ (receiver.Drained → queue = []) := by
    intro sender receiver hway
    obtain ⟨frames, payloads, start, left, -, -, -, hfifo⟩ := hway.flight
    exact ⟨payloads, hfifo, fun hdrained => hfifo.unique (hway.empty_of_drained hdrained)⟩
  refine ⟨hqueue hsound.there, hqueue hsound.back, hsound.near_failed, hsound.far_failed, fun act => ⟨?_, ?_⟩⟩
  · intro hallowed
    obtain ⟨next, hcall, -⟩ := act.sound hN htagged hfuel hsound hallowed
    exact ⟨next, hcall⟩
  · intro hallowed
    obtain ⟨next, hcall, -⟩ := act.sound hN htagged hfuel hsound.swap hallowed
    exact ⟨next, hcall⟩

end

theorem ciphers_pattern_xx :
    Ciphers pattern_xx (fun _ => ()) (fun _ => ()) fun _ _ : Unit => True := by
  refine ⟨?_, fun _ _ => rfl, fun _ _ => rfl, ?_⟩
  · intro sender receiver plain _ _
    refine ⟨plain ++ Pattern.tag, sender, receiver, rfl, by simp [Pattern.tag], ?_, trivial⟩
    simp [pattern_xx, Pattern.tag]
  · intro sealed s s' _
    refine ⟨?_, rfl⟩
    unfold pattern_xx
    dsimp only
    split_ifs <;> rfl

/-- Two ends that have nothing to send yet. -/
def idle_channel : Channel Pattern where
  near := ⟨pattern_server [] false, [], [], false⟩
  far := ⟨pattern_server [] false, [], [], false⟩

/-- Both ends write. The frame for the far end comes in two segments, the first of which ends in the middle
of it, and the frame for the near end is still on the way. -/
theorem channel_refines_queues_of_two_segments :
    ∃ c, idle_channel.Runs pattern_xx 65538 c ∧
      c.near.history = [.put [1, 2, 3], .take [1, 2, 3]] ∧ c.far.history = [.put [9]] ∧ c.far.Drained ∧
      (∃ queue, Fifo.Runs [] c.near.history queue ∧ queue = []) ∧
      ∃ queue, Fifo.Runs [] c.far.history queue ∧ (c.near.Drained → queue = []) := by
  have hwriter : (pattern_server [] false).Idle 0 := ⟨rfl, by decide, rfl, rfl, rfl⟩
  have hreader : (pattern_server [] false).Receiving := ⟨rfl, by decide, rfl, rfl, by decide⟩
  have hfresh : idle_channel.Fresh (fun _ => ()) (fun _ => ()) fun _ _ : Unit => True := by
    refine ⟨?_, ?_, trivial, trivial⟩
    · intro p hp
      have heq : p.w = pattern_server [] false := by
        simp only [idle_channel, List.mem_cons, List.not_mem_nil, or_false, or_self] at hp
        rw [hp]
      rw [heq]
      exact ⟨hwriter, hreader, rfl⟩
    · intro p hp
      simp only [idle_channel, List.mem_cons, List.not_mem_nil, or_false, or_self] at hp
      subst hp
      exact ⟨⟨rfl, rfl⟩, rfl, rfl⟩
  have hrun : ∃ c, idle_channel.Runs pattern_xx 65538 c ∧
      c.near.history = [.put [1, 2, 3], .take [1, 2, 3]] ∧ c.far.history = [.put [9]] ∧ c.far.Drained := by
    refine ⟨_, (((((Channel.Runs.refl.near (.write 7 [1, 2, 3]) ⟨by decide, by decide, rfl, by intro b hb; cases hb⟩ rfl).far
      (.write 7 [9]) ⟨by decide, by decide, rfl, by intro b hb; cases hb⟩ rfl).far (.deliver 4) trivial rfl).far (.recv 100 16)
      ⟨by decide, by decide⟩ rfl).far (.deliver 99) trivial rfl).far (.recv 100 16)
      ⟨by decide, by decide⟩ rfl, rfl, rfl, rfl, rfl⟩
  obtain ⟨c, hruns, hnear, hfar, hdrained⟩ := hrun
  obtain ⟨⟨queue, hqueue, hempty⟩, hback, -⟩ := channel_refines_queues ciphers_pattern_xx tagged_pattern_xx
    (Nat.le_refl 65538) hfresh hruns
  exact ⟨c, hruns, hnear, hfar, hdrained, ⟨queue, hqueue, hempty hdrained⟩, hback⟩

end ngx_nsoc
