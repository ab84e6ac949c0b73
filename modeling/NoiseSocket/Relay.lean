import NoiseSocket.Handler.Data
import NoiseSocket.Lib.Signed
import NoiseSocket.Phases
import NoiseSocket.Relay.Chain

open Exec Exec.Result

namespace ngx_nsoc

variable {S D : Type}

/-- `ngx_chain_update_chains`: which links of `*busy` and `*out` stay in `*busy`, where `done` says which
of them have no unsent bytes. The others go to the free list; one that is taken from there is filled in
anew and counts as another link. -/
abbrev UpdateChains := (done : Nat → Bool) → (busy out : List Nat) → List Nat

/-- It takes links that are done with from the front of the two chains. -/
def UpdateChains.Frees (update_chains : UpdateChains) : Prop :=
  ∀ done busy out, ∃ freed, busy ++ out = freed ++ update_chains done busy out ∧ ∀ i ∈ freed, done i = true

/-- It goes on as long as there are such links. -/
def UpdateChains.in_order : UpdateChains := fun done busy out => (busy ++ out).dropWhile done

/-- What a relay writes a connection with: its `send_chain`, which returns the unsent rest of the
chain or `NGX_CHAIN_ERROR`, its flag `NGX_LOWLEVEL_BUFFERED`, and `ngx_chain_update_chains`. Between two
calls of the relay the rest of the program uses the connection as `elsewhere` says, and on a `fresh` one
nothing was sent yet. -/
structure Destination (D : Type) where
  send_chain : List Nat → Links → Heap → D → Result (Option (List Nat) × Links × Heap × D)
  lowlevel_buffered : D → Bool
  update_chains : UpdateChains
  elsewhere : D → D → Prop
  fresh : D → Prop

/-- The connection that a relay reads. Where its `recv` is that of the socket, the session may have a
`noise_connection` for this direction all the same: one that the handshake has not come to use. -/
inductive Source (S : Type) where
  | plain (rx : Net.Incoming) (read : Event) (noise_connection : Bool)
  | noise (w : Endpoint S)

namespace Source

/-- `noise_recv_action`: the session has a noise connection, `s->client_noise_connection` for what comes
from the upstream and `s->server_noise_connection` for what comes from the client. -/
def noise_recv_action : Source S → Bool
  | .plain _ _ noise_connection => noise_connection
  | .noise _ => true

/-- `recv` is that of the socket. -/
def is_plain : Source S → Bool
  | .plain _ _ _ => true
  | .noise _ => false

/-- `src->read`. -/
def read : Source S → Event
  | .plain _ read _ => read
  | .noise w => w.c.read

def setRead (read : Event) : Source S → Source S
  | .plain rx _ noise_connection => .plain rx read noise_connection
  | .noise w => .noise { w with c := { w.c with read } }

/-- `src->recv(src, addr, size)` into the memory of the caller. -/
def recv (N : NoiseC S) (fuel : Nat) (mem : Memory) (addr size : Nat) :
    Source S → Result (Int × Memory × Source S)
  | .plain rx read noise_connection =>
    let r := rx.recv size
    ok (answerCode r.1, mem.write addr (answerBytes r.1), .plain r.2 (read.afterRecv r.1) noise_connection)
  | .noise w => do
    let r ← { w with mem }.recv N fuel addr size
    ok (r.1, r.2.mem, .noise r.2)

/-- What the rest of the program may do to a connection that a relay reads: it does not receive. -/
inductive Elsewhere : Source S → Source S → Prop where
  | plain (rx rx' : Net.Incoming) (read read' : Event) (noise_connection noise_connection' : Bool) :
      Elsewhere (.plain rx read noise_connection) (.plain rx' read' noise_connection')
  | noise (w w' : Endpoint S) (hrecv_buf : w'.nc.recv_buf = w.nc.recv_buf)
      (hnoise_msg : w'.nc.noise_msg = w.nc.noise_msg) : Elsewhere (.noise w) (.noise w')

/-- Where the source stores what its `recv` hands over, if it is told to store where
`ngx_nsoc_proxy_process` tells it. -/
def payload_addr (b : RawBuf) : Source S → Nat
  | .plain _ _ noise_connection => if noise_connection then b.start else b.last
  | .noise _ => b.start + 2 * NGX_NSOC_LEN_FIELD_SIZE

/-- No frame is under way. -/
def Fresh : Source S → Prop
  | .plain _ _ _ => True
  | .noise w => w.nc.recv_buf = none ∧ ∀ len, w.nc.noise_msg ≠ .known len

end Source

/-- What is fixed for one direction of a session. `preread` is `c->buffer`. -/
structure RelayConf where
  from_upstream : Bool
  dgram : Bool
  limit_rate : Nat
  responses : Nat
  src_shared : Bool
  dst_shared : Bool
  need_last_buf : Bool
  preread : Option RawBuf
deriving DecidableEq, Repr

/-- One direction of a session: the buffer `b`, the connections it is read from and written to, the
chains `*out`, `*busy` and the one saved by the write filter, and the counters. `other_received`
counts the bytes of the other direction. The last four fields are not part of the program: how many
links there were when `ngx_nsoc_proxy_process` was entered, what each link was made for, and
everything that `recv` has returned. -/
structure Relay (S D : Type) where
  b : RawBuf
  src : Source S
  dst : D
  connected : Bool
  dst_read : Event
  dst_error : Bool
  write_buffered : Bool
  ctx : Bool
  out : List Nat
  busy : List Nat
  saved : List Nat
  links : Links
  heap : Heap
  received : Nat
  other_received : Nat
  responses : Nat
  elapsed : Int
  do_write : Bool
  write_timer : Bool
  events : List Bool
  allocs : List Bool
  entered : Nat
  record : Nat → List UInt8
  payload : List UInt8

/-- How `ngx_nsoc_proxy_process` ends: it returns, or it has ended the session, or it has given
up the upstream server. -/
inductive ProcessExit where
  | returned
  | finalized (rc : Int)
  | next_upstream
deriving DecidableEq, Repr

/-- A difference of addresses as a `size_t`. -/
def size_t (n : Int) : Nat := (n % 2 ^ 64).toNat

namespace Relay

/-- `dst->buffered`. -/
def dst_buffered (P : Destination D) (r : Relay S D) : Bool :=
  r.write_buffered || P.lowlevel_buffered r.dst

/-- `u->received`. -/
def u_received (conf : RelayConf) (r : Relay S D) : Nat :=
  if conf.from_upstream then r.received else r.other_received

/-- Several allocations, one after the other. -/
def ngx_allocs (r : Relay S D) (n : Nat) : Bool × Relay S D :=
  ((r.allocs.take n).all id, { r with allocs := r.allocs.drop n })

/-- `ngx_handle_read_event` and `ngx_handle_write_event`. -/
def ngx_handle_event (r : Relay S D) : Bool × Relay S D :=
  ((nextAnswer r.events).1, { r with events := (nextAnswer r.events).2 })

/-- The positions of the buffer go back behind the two length fields. -/
def reset (r : Relay S D) : Relay S D :=
  let pos := r.b.start + 2 * NGX_NSOC_LEN_FIELD_SIZE
  { r with b := { r.b with pos, last := pos } }

/-- `ngx_nsoc_write_filter`. -/
def write_filter (conf : RelayConf) (P : Destination D) (r : Relay S D) : Result (Int × Relay S D) :=
  let granted := r.ngx_allocs ((if r.ctx then 0 else 1) + r.out.length)
  let chain := r.saved ++ r.out
  let r := { granted.2 with ctx := true }
  let empty (i : Nat) : Bool := (r.links.buf i).ngx_buf_size = 0 && !(r.links.buf i).ngx_buf_special
  if ¬ granted.1 ∨ r.dst_error ∨ chain.any empty then ok (NGX_ERROR, r)
  else
    let last := chain.any fun i => (r.links.buf i).last_buf
    let flush := chain.any fun i => (r.links.buf i).flush
    if r.links.size chain = 0 ∧ ¬ P.lowlevel_buffered r.dst ∧ ¬ (last ∧ conf.need_last_buf) then
      if last ∨ flush then ok (NGX_OK, { r with saved := [], write_buffered := false })
      else ok (NGX_ERROR, { r with saved := chain })
    else do
      let sent ← P.send_chain chain r.links r.heap r.dst
      let r := { r with links := sent.2.1, heap := sent.2.2.1, dst := sent.2.2.2 }
      match sent.1 with
      | none => ok (NGX_ERROR, { r with saved := chain, dst_error := true })
      | some [] =>
        let r := { r with saved := [], write_buffered := false }
        ok (if P.lowlevel_buffered r.dst then NGX_AGAIN else NGX_OK, r)
      | some rest =>
        if conf.dst_shared then ok (NGX_ERROR, { r with saved := rest })
        else ok (NGX_AGAIN, { r with saved := rest, write_buffered := true })

/-- `ngx_chain_update_chains` takes `*out` over into `*busy`. -/
def update_chains (P : Destination D) (r : Relay S D) : Relay S D :=
  { r with
    busy := P.update_chains (fun i => (r.links.buf i).ngx_buf_size = 0) r.busy r.out
    out := [] }

/-- The half of a pass of `ngx_nsoc_proxy_process` that writes. -/
def process_write (conf : RelayConf) (P : Destination D) (r : Relay S D) :
    Result (Option ProcessExit × Relay S D) :=
  if r.do_write ∧ r.connected ∧ (r.out ≠ [] ∨ r.busy ≠ [] ∨ r.dst_buffered P) then do
    let sent ← r.write_filter conf P
    if sent.1 = NGX_ERROR then
      ok (some (if conf.dgram ∧ ¬ conf.from_upstream then .next_upstream else .finalized NGX_NSOC_OK),
        sent.2)
    else
      let r := sent.2.update_chains P
      ok (none, if r.busy = [] then r.reset else r)
  else ok (none, r)

/-- The room that is left for a read. -/
def room (r : Relay S D) : Nat :=
  if r.src.noise_recv_action then size_t (r.b.stop - r.b.last)
  else size_t (r.b.stop - r.b.last - NOISE_PROTOCOL_MAC_DATA_SIZE)

/-- A read is made, as far as the source and the room go. -/
def readable (r : Relay S D) : Prop :=
  r.room ≠ 0 ∧ r.src.read.ready ∧ ¬ r.src.read.delayed ∧ ¬ r.src.read.error

instance (r : Relay S D) : Decidable r.readable := by
  unfold readable
  infer_instance

/-- `limit`, an `off_t`: a product that it cannot hold goes on from the other end of its range. -/
def limit (conf : RelayConf) (r : Relay S D) : Int :=
  Signed.int64 (conf.limit_rate * (r.elapsed + 1) - r.received)

/-- The size that is passed to `recv`. -/
def read_size (conf : RelayConf) (r : Relay S D) : Nat :=
  if conf.limit_rate ≠ 0 ∧ r.limit conf < r.room then (r.limit conf).toNat else r.room

/-- Where `recv` is told to store. -/
def read_addr (r : Relay S D) : Nat := if r.src.noise_recv_action then r.b.start else r.b.last

/-- Where a payload of `recv` lies: `ngx_nsoc_recv` stores it behind the two length fields. -/
def payload_addr (r : Relay S D) : Nat := r.src.payload_addr r.b

def setSrcRead (r : Relay S D) (read : Event) : Relay S D := { r with src := r.src.setRead read }

/-- The source is not read before a timer has run out. -/
def delay (r : Relay S D) : Relay S D :=
  r.setSrcRead { r.src.read with delayed := true, timer_set := true }

/-- What `recv` returned is accounted for, before the link is made. -/
def account (conf : RelayConf) (n : Nat) (r : Relay S D) : Relay S D :=
  let r := if conf.limit_rate ≠ 0 ∧ 0 < n * 1000 / conf.limit_rate then r.delay else r
  if conf.dgram then
    let r := { r with responses := r.responses + 1 }
    if r.responses = conf.responses then r.setSrcRead { r.src.read with ready := false, eof := true }
    else r
  else r

/-- A link for the `n` bytes behind `b->last`, at the end of `*out`. -/
def add_link (n : Nat) (r : Relay S D) : Relay S D :=
  let link := r.links.make
    { preread := false, start := r.b.start, pos := r.b.last, last := r.b.last + n, stop := r.b.stop
      temporary := n ≠ 0, last_buf := r.src.read.eof, flush := true }
  let got := r.heap.relay.read r.payload_addr n
  { r with
    out := r.out ++ [link.1], links := link.2, received := r.received + n, do_write := true
    b := { r.b with last := r.b.last + n }
    record := fun i => if i = link.1 then got else r.record i
    payload := r.payload ++ got }

/-- The number of bytes that `recv` has returned; an error counts as none. -/
def taken (n : Int) : Int := if n = NGX_ERROR then 0 else n

/-- What `recv` leaves. An error ends the stream. -/
def behind_recv (got : Int × Memory × Source S) (r : Relay S D) : Relay S D :=
  let r := { r with src := got.2.2, heap := { r.heap with relay := got.2.1 } }
  if got.1 = NGX_ERROR then r.setSrcRead { r.src.read with eof := true } else r

/-- The part of a pass of `ngx_nsoc_proxy_process` behind the call of `recv`. -/
def take_received (conf : RelayConf) (got : Int × Memory × Source S) (r : Relay S D) :
    ControlFlow (Relay S D) (Option ProcessExit × Relay S D) :=
  if got.1 = NGX_ERROR ∧ conf.dgram ∧ r.u_received conf = 0 then
    .done (some .next_upstream, { r with src := got.2.2, heap := { r.heap with relay := got.2.1 } })
  else
    let n := taken got.1
    let r := r.behind_recv got
    if n < 0 then .done (none, r)
    else
      let granted := (r.account conf n.toNat).ngx_allocs 1
      if ¬ granted.1 then .done (some (.finalized NGX_NSOC_INTERNAL_SERVER_ERROR), granted.2)
      else .cont (granted.2.add_link n.toNat)

/-- The half of a pass of `ngx_nsoc_proxy_process` that reads. -/
def process_read (conf : RelayConf) (N : NoiseC S) (fuel : Nat) (r : Relay S D) :
    Result (ControlFlow (Relay S D) (Option ProcessExit × Relay S D)) :=
  if ¬ r.readable then ok (.done (none, r))
  else if conf.limit_rate ≠ 0 ∧ r.limit conf ≤ 0 then ok (.done (none, r.delay))
  else do
    let got ← r.src.recv N fuel r.heap.relay r.read_addr (r.read_size conf)
    ok (r.take_received conf got)

/-- One pass of the loop of `ngx_nsoc_proxy_process`. -/
def process_body (conf : RelayConf) (P : Destination D) (N : NoiseC S) (fuel : Nat) (r : Relay S D) :
    Result (ControlFlow (Relay S D) (Option ProcessExit × Relay S D)) := do
  let w ← r.process_write conf P
  match w.1 with
  | some exit => ok (.done (some exit, w.2))
  | none => w.2.process_read conf N fuel

/-- `ngx_nsoc_proxy_process` in front of its loop. -/
def enter (do_write : Bool) (elapsed : Int) (r : Relay S D) : Relay S D :=
  { r.reset with do_write, elapsed, entered := r.links.made }

/-- `ngx_nsoc_proxy_process` behind its loop. -/
def leave (conf : RelayConf) (P : Destination D) (r : Relay S D) : ProcessExit × Relay S D :=
  if r.src.read.eof ∧ r.connected ∧ (r.dst_read.eof ∨ ¬ r.dst_buffered P) then
    (.finalized NGX_NSOC_OK, r)
  else
    let read := if conf.src_shared then (true, r) else r.ngx_handle_event
    if ¬ read.1 then (.finalized NGX_NSOC_INTERNAL_SERVER_ERROR, read.2)
    else if ¬ r.connected then (.returned, read.2)
    else
      let write := if conf.dst_shared then (true, read.2) else read.2.ngx_handle_event
      if ¬ write.1 then (.finalized NGX_NSOC_INTERNAL_SERVER_ERROR, write.2)
      else (.returned, { write.2 with write_timer := !r.src.read.delayed && !r.dst_read.delayed })

/-- `ngx_nsoc_proxy_process(s, conf.from_upstream, do_write)`. -/
def process (conf : RelayConf) (P : Destination D) (N : NoiseC S) (fuel : Nat)
    (stopping do_write : Bool) (elapsed : Int) (r : Relay S D) : Result (ProcessExit × Relay S D) :=
  if conf.dgram ∧ stopping then ok (.finalized NGX_NSOC_OK, r)
  else do
    let s ← loop (process_body conf P N fuel) fuel (r.enter do_write elapsed)
    match s.1 with
    | some exit => ok (exit, s.2)
    | none => ok (s.2.leave conf P)

/-- The part of `ngx_nsoc_proxy_init_upstream` that makes a connection the one to be written: what
was read in the preread phase goes first. -/
def connect (conf : RelayConf) (dst : D) (dst_read : Event) (r : Relay S D) : Relay S D :=
  let dst_read :=
    if conf.dgram ∧ conf.responses = 0 then { dst_read with ready := false, eof := true } else dst_read
  let r := { r with dst, dst_read, connected := true }
  match conf.preread with
  | none => r
  | some buffer =>
    if buffer.pos < buffer.last then
      let link := r.links.make
        { preread := true, start := buffer.start, pos := buffer.pos, last := buffer.last
          stop := buffer.stop, temporary := true, last_buf := conf.dgram, flush := true }
      { r with
        out := link.1 :: r.out, links := link.2
        record := fun i =>
          if i = link.1 then r.heap.preread.read buffer.pos (buffer.last - buffer.pos) else r.record i }
    else r

end Relay

end ngx_nsoc
