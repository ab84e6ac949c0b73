import NoiseSocket.Proxy
import NoiseSocket.Relay.Rates
import NoiseSocket.Relay.Run
import NoiseSocket.Relay.Timers

open Exec Exec.Result

namespace ngx_nsoc

variable {S D E : Type}

@[simp] abbrev NGX_NSOC_BAD_GATEWAY : Int := 502

/-- `NGX_MAX_INT32_VALUE`. -/
abbrev NGX_MAX_INT32_VALUE : Nat := 2147483647

/-- What is fixed for the two directions of a session: of `ngx_nsoc_proxy_srv_conf_t`, of the connection to
the client and of the one to the upstream. -/
structure RelaysConf where
  dgram : Bool
  upload_rate : Nat
  download_rate : Nat
  responses : Nat
  client_shared : Bool
  upstream_shared : Bool
  client_need_last_buf : Bool
  upstream_need_last_buf : Bool
  preread : Option RawBuf
deriving DecidableEq, Repr

/-- The direction to the upstream. -/
def RelaysConf.upload (conf : RelaysConf) : RelayConf where
  from_upstream := false
  dgram := conf.dgram
  limit_rate := conf.upload_rate
  responses := conf.responses
  src_shared := conf.client_shared
  dst_shared := conf.upstream_shared
  need_last_buf := conf.upstream_need_last_buf
  preread := conf.preread

/-- The direction to the client. -/
def RelaysConf.download (conf : RelaysConf) : RelayConf where
  from_upstream := true
  dgram := conf.dgram
  limit_rate := conf.download_rate
  responses := conf.responses
  src_shared := conf.upstream_shared
  dst_shared := conf.client_shared
  need_last_buf := conf.client_need_last_buf
  preread := none

/-- The two directions of a session. Each connection is the source of one of them and the destination of
the other; `write_timer` is the timer of `c->write`. -/
structure Relays (S D E : Type) where
  upload : Relay S D
  download : Relay S E

/-- The events of a session: those of the client have the handler `ngx_nsoc_proxy_downstream_handler`, and
those of a connected upstream `ngx_nsoc_proxy_upstream_handler`. -/
inductive Waker where
  | client_read
  | client_write
  | upstream_read
  | upstream_write
deriving DecidableEq, Repr

/-- `ev->write`. -/
def Waker.write : Waker → Bool
  | .client_read | .upstream_read => false
  | .client_write | .upstream_write => true

/-- What the two handlers pass to `ngx_nsoc_proxy_process_connection`. -/
def Waker.from_upstream (waker : Waker) : Bool :=
  match waker with
  | .client_read | .client_write => waker.write
  | .upstream_read | .upstream_write => !waker.write

/-- What the two directions share, as a call for the other one has left it. -/
def Relay.beside (r : Relay S D) (other : Relay S E) : Relay S D :=
  { r with
    dst_read := other.src.read, write_timer := other.write_timer, other_received := other.received
    responses := other.responses, events := other.events, allocs := other.allocs }

namespace Relays

/-- `c->read`. -/
def client_read (x : Relays S D E) : Event := x.upload.src.read

/-- `pc->read`. -/
def upstream_read (x : Relays S D E) : Event := x.download.src.read

/-- `u->connected`. -/
def connected (x : Relays S D E) : Bool := x.upload.connected

/-- `c->write->timer_set`. -/
def write_timer (x : Relays S D E) : Bool := x.upload.write_timer

def setClientRead (x : Relays S D E) (read : Event) : Relays S D E where
  upload := x.upload.setSrcRead read
  download := { x.download with dst_read := read }

def setUpstreamRead (x : Relays S D E) (read : Event) : Relays S D E where
  upload := { x.upload with dst_read := read }
  download := x.download.setSrcRead read

def setWriteTimer (x : Relays S D E) (write_timer : Bool) : Relays S D E where
  upload := { x.upload with write_timer }
  download := { x.download with write_timer }

/-- The read event that a handler is called with, if it is one. -/
def event (x : Relays S D E) : Waker → Option Event
  | .client_read => some x.client_read
  | .upstream_read => some x.upstream_read
  | .client_write | .upstream_write => none

def setEvent (x : Relays S D E) (read : Event) : Waker → Relays S D E
  | .client_read => x.setClientRead read
  | .upstream_read => x.setUpstreamRead read
  | .client_write | .upstream_write => x

/-- `ev->delayed`; nothing delays a write event. -/
def delayed (x : Relays S D E) (waker : Waker) : Bool := (x.event waker).any Event.delayed

/-- Whether the timer of an event is armed. That of `pc->write` only guards the connecting. -/
def armed (x : Relays S D E) : Waker → Bool
  | .client_read => x.client_read.timer_set
  | .client_write => x.write_timer
  | .upstream_read => x.connected && x.upstream_read.timer_set
  | .upstream_write => false

/-- The timer of an event has run out. -/
def expire (x : Relays S D E) : Waker → Relays S D E
  | .client_read => x.setClientRead { x.client_read with timer_set := false }
  | .client_write => x.setWriteTimer false
  | .upstream_read => x.setUpstreamRead { x.upstream_read with timer_set := false }
  | .upstream_write => x

section

variable (conf : RelaysConf) (P : Destination D) (Q : Destination E) (N : NoiseC S) (fuel : Nat)

/-- `ngx_nsoc_proxy_process`. -/
def process (stopping from_upstream do_write : Bool) (elapsed : Int) (x : Relays S D E) :
    Result (ProcessExit × Relays S D E) :=
  if from_upstream then do
    let r ← x.download.process conf.download Q N fuel stopping do_write elapsed
    ok (r.1, ⟨x.upload.beside r.2, r.2⟩)
  else do
    let r ← x.upload.process conf.upload P N fuel stopping do_write elapsed
    ok (r.1, ⟨r.2, x.download.beside r.2⟩)

/-- The end of `ngx_nsoc_proxy_process_connection`. -/
def run (stopping : Bool) (elapsed : Int) (waker : Waker) (x : Relays S D E) :
    Result (ProcessExit × Relays S D E) :=
  if waker.from_upstream ∧ ¬ x.connected then ok (.returned, x)
  else x.process conf P Q N fuel stopping waker.from_upstream waker.write elapsed

/-- The timer of the client is armed where no read is delayed. -/
def arm (x : Relays S D E) : Relays S D E :=
  if x.connected ∧ ¬ x.client_read.delayed ∧ ¬ x.upstream_read.delayed then x.setWriteTimer true else x

/-- `ngx_nsoc_proxy_process_connection`; `handled` is what `ngx_handle_read_event` answers. -/
def process_connection (stopping : Bool) (elapsed : Int) (handled : Bool) (waker : Waker) (timedout : Bool)
    (x : Relays S D E) : Result (ProcessExit × Relays S D E) :=
  if timedout then
    match (x.event waker).filter Event.delayed with
    | some ev =>
      let x := x.setEvent { ev with delayed := false } waker
      if ev.ready then x.run conf P Q N fuel stopping elapsed waker
      else if ¬ handled then ok (.finalized NGX_NSOC_INTERNAL_SERVER_ERROR, x)
      else ok (.returned, x.arm)
    | none =>
      if conf.dgram then
        if conf.responses = NGX_MAX_INT32_VALUE then
          (x.setUpstreamRead { x.upstream_read with ready := false, eof := true }).process conf P Q N fuel
            stopping true false elapsed
        else if x.download.received = 0 then ok (.next_upstream, x)
        else ok (.finalized NGX_NSOC_OK, x)
      else ok (.finalized NGX_NSOC_OK, x)
  else if x.delayed waker then
    ok (if handled then .returned else .finalized NGX_NSOC_INTERNAL_SERVER_ERROR, x)
  else x.run conf P Q N fuel stopping elapsed waker

/-- The part of `ngx_nsoc_proxy_init_upstream` that connects the two directions, with a new connection to
the upstream. -/
def connect (dst : D) (src : Source S) (x : Relays S D E) : Relays S D E :=
  let upload := x.upload.connect conf.upload dst src.read
  ⟨upload, { x.download with src := src.setRead upload.dst_read }⟩

/-- `u->connected = 0`, behind `ngx_nsoc_proxy_next_upstream`. -/
def disconnect (x : Relays S D E) : Relays S D E := ⟨{ x.upload with connected := false }, x.download⟩

end

/-- What the operating system, and the sending on the connections, may change between two calls. Nobody
else delays a read or touches a timer of the session. -/
structure Elsewhere (P : Destination D) (Q : Destination E) (x y : Relays S D E) : Prop where
  upload : x.upload.Elsewhere P y.upload
  download : x.download.Elsewhere Q y.download
  client_delayed : y.client_read.delayed = x.client_read.delayed
  client_timer : y.client_read.timer_set = x.client_read.timer_set
  upstream_delayed : y.upstream_read.delayed = x.upstream_read.delayed
  upstream_timer : y.upstream_read.timer_set = x.upstream_read.timer_set
  write_timer : y.write_timer = x.write_timer
  download_timer : y.download.write_timer = x.write_timer
  client_read : y.download.dst_read = y.client_read
  upstream_read : y.upload.dst_read = y.upstream_read

/-- A session that `ngx_nsoc_proxy_handler` starts with: there is no connection to the upstream, and
nothing delays the client. -/
structure Started (x : Relays S D E) : Prop where
  connected : x.connected = false
  download : x.download.connected = true
  client_read : x.download.dst_read = x.client_read
  upstream_read : x.upload.dst_read = x.upstream_read
  write_timer : x.download.write_timer = x.write_timer
  client_timed : x.client_read.timer_set = false ∧ x.client_read.delayed = false
  upstream_timed : x.upstream_read.timer_set = false ∧ x.upstream_read.delayed = false
  received : x.upload.received = 0 ∧ x.download.received = 0

/-- One step of a session between two events, at a time in seconds since its start, which is negative where
the clock was set back. `.finalized` is its end, and behind `.next_upstream` it is at the call of
`ngx_nsoc_proxy_next_upstream`. -/
inductive Step (conf : RelaysConf) (P : Destination D) (Q : Destination E) (N : NoiseC S) (fuel : Nat) :
    Int → ProcessExit × Relays S D E → ProcessExit × Relays S D E → Prop where
  | event {x : Relays S D E} {y : ProcessExit × Relays S D E} (stopping handled : Bool) (elapsed : Int)
      (waker : Waker)
      (hcall : x.process_connection conf P Q N fuel stopping elapsed handled waker false = ok y) :
      Step conf P Q N fuel elapsed (.returned, x) y
  | expired {x : Relays S D E} {y : ProcessExit × Relays S D E} (stopping handled : Bool) (elapsed : Int)
      (waker : Waker) (harmed : x.armed waker = true)
      (hcall : (x.expire waker).process_connection conf P Q N fuel stopping elapsed handled waker true =
        ok y) : Step conf P Q N fuel elapsed (.returned, x) y
  | connect {x : Relays S D E} {y : ProcessExit × Relays S D E} (dst : D) (src : Source S) (stopping : Bool)
      (elapsed : Int) (hconnected : x.connected = false) (hdst : P.fresh dst) (hsrc : src.Fresh)
      (hread : src.read.timer_set = false ∧ src.read.delayed = false)
      (hcall : (x.connect conf dst src).process conf P Q N fuel stopping false true elapsed = ok y) :
      Step conf P Q N fuel elapsed (.returned, x) y
  | next_upstream (elapsed : Int) (x : Relays S D E) :
      Step conf P Q N fuel elapsed (.next_upstream, x) (.returned, x.disconnect)
  | give_up (elapsed : Int) (x : Relays S D E) (rc : Int) :
      Step conf P Q N fuel elapsed (.next_upstream, x) (.finalized rc, x)
  | elsewhere {x y : Relays S D E} (elapsed : Int) (helsewhere : x.Elsewhere P Q y) :
      Step conf P Q N fuel elapsed (.returned, x) (.returned, y)

/-- The states of a session that starts in `x`, with the times that the clock has shown. -/
inductive Reachable (conf : RelaysConf) (P : Destination D) (Q : Destination E) (N : NoiseC S) (fuel : Nat)
    (x : Relays S D E) : Clock → ProcessExit × Relays S D E → Prop where
  | started (hx : x.Started) : Reachable conf P Q N fuel x .start (.returned, x)
  | step {clock : Clock} {elapsed : Int} {y z : ProcessExit × Relays S D E}
      (hrun : Reachable conf P Q N fuel x clock y) (hstep : Step conf P Q N fuel elapsed y z) :
      Reachable conf P Q N fuel x (clock.shows elapsed) z

section

variable {conf : RelaysConf} {P : Destination D} {Q : Destination E} {N : NoiseC S} {fuel : Nat} {elapsed : Int}
  {stopping handled : Bool} {waker : Waker}

/-- What a call of the upstream side stands for here. -/
def ComesTo (conf : RelaysConf) (P : Destination D) (Q : Destination E) (N : NoiseC S) (fuel : Nat)
    (stopping : Bool) (elapsed : Int) (r : Result (ProcessExit × Relays S D E)) :
    ngx_nsoc_proxy.Call → Prop
  | .waiting => ∃ x, r = ok (.returned, x)
  | .finalize => ∃ rc x, r = ok (.finalized rc, x)
  | .next_upstream => ∃ x, r = ok (.next_upstream, x)
  | .process from_upstream do_write =>
    ∃ x : Relays S D E, r = x.process conf P Q N fuel stopping from_upstream do_write elapsed
  | _ => False

theorem comesTo_run (conf : RelaysConf) (P : Destination D) (Q : Destination E) (N : NoiseC S) (fuel : Nat)
    (stopping : Bool) (elapsed : Int) (waker : Waker) (x : Relays S D E) :
    ComesTo conf P Q N fuel stopping elapsed (x.run conf P Q N fuel stopping elapsed waker)
      (if waker.from_upstream = true ∧ ¬ x.connected = true then .waiting
        else .process waker.from_upstream waker.write) := by
  unfold run
  split_ifs with hnone
  · exact ⟨x, rfl⟩
  · exact ⟨x, rfl⟩

theorem comesTo_timedout (x : Relays S D E) {responses : Option Nat}
    (hresponses : responses = if conf.responses = NGX_MAX_INT32_VALUE then none else some conf.responses) :
    ComesTo conf P Q N fuel stopping elapsed
      (if conf.dgram then
        if conf.responses = NGX_MAX_INT32_VALUE then
          (x.setUpstreamRead { x.upstream_read with ready := false, eof := true }).process conf P Q N fuel
            stopping true false elapsed
        else if x.download.received = 0 then ok (.next_upstream, x)
        else ok (.finalized NGX_NSOC_OK, x)
      else ok (.finalized NGX_NSOC_OK, x))
      (if (!conf.dgram) = true then .finalize
        else if responses = none then .process true false
        else if x.download.received = 0 then .next_upstream
        else .finalize) := by
  rw [hresponses]
  cases conf.dgram with
  | false => exact ⟨_, x, rfl⟩
  | true =>
    simp only [Bool.not_true, if_true]
    by_cases hmax : conf.responses = NGX_MAX_INT32_VALUE
    · rw [if_pos hmax, if_pos hmax]
      exact ⟨_, rfl⟩
    · rw [if_neg hmax, if_neg hmax]
      by_cases hnothing : x.download.received = 0
      · rw [if_pos hnothing, if_pos hnothing]
        exact ⟨x, rfl⟩
      · rw [if_neg hnothing, if_neg hnothing]
        exact ⟨_, x, rfl⟩

theorem connected_setEvent (x : Relays S D E) (read : Event) : (x.setEvent read waker).connected = x.connected := by
  cases waker
  all_goals rfl

/-- `ngx_nsoc_proxy_process_connection` does with the two directions what it does with the upstream side of
the session, seen alone. -/
theorem comesTo_process_connection {timedout : Bool} (x : Relays S D E) (s : ngx_nsoc_proxy.Proxy S)
    (hconnected : s.connected = x.connected) (hstream : s.stream = !conf.dgram)
    (hresponses : s.conf.responses = if conf.responses = NGX_MAX_INT32_VALUE then none else some conf.responses)
    (hreceived : s.received = x.download.received) :
    ComesTo conf P Q N fuel stopping elapsed
      (x.process_connection conf P Q N fuel stopping elapsed handled waker timedout)
      (s.process_connection
        ⟨waker.write, (x.event waker).any Event.ready, x.delayed waker, timedout, handled⟩ waker.from_upstream) := by
  unfold ngx_nsoc_proxy.Proxy.process_connection process_connection delayed
  dsimp only
  rw [hconnected, hstream, hreceived]
  cases timedout with
  | true =>
    simp only [if_true]
    cases hev : x.event waker with
    | none => exact comesTo_timedout x hresponses
    | some ev =>
      simp only [Option.any_some, Option.filter_some]
      cases hdelayed : ev.delayed with
      | false => exact comesTo_timedout x hresponses
      | true =>
        simp only [if_true]
        by_cases hready : ev.ready = true
        · rw [if_pos hready, if_pos hready, ← connected_setEvent x { ev with delayed := false }]
          exact comesTo_run conf P Q N fuel stopping elapsed waker _
        · rw [if_neg hready, if_neg hready]
          cases handled with
          | true => exact ⟨_, rfl⟩
          | false => exact ⟨_, _, rfl⟩
  | false =>
    cases hdelayed : (x.event waker).any Event.delayed with
    | true =>
      cases handled with
      | true => exact ⟨x, rfl⟩
      | false => exact ⟨_, x, rfl⟩
    | false => exact comesTo_run conf P Q N fuel stopping elapsed waker x

end

end Relays

end ngx_nsoc
