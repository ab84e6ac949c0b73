import NoiseSocket.Proxy.Tries.Run

open Exec Exec.Result

namespace ngx_nsoc_proxy

open ngx_nsoc ngx_nsoc_upstream

variable {S : Type}

/-- What `u->peer.name` points to: the name of a peer, or that of the upstream. -/
inductive PeerName where
  | peer (at_ : Group × Nat)
  | upstream
deriving DecidableEq, Repr

/-- `(ngx_msec_t) -1`. -/
def no_time : UInt64 := 0 - 1

/-- `ngx_nsoc_upstream_state_t`; the times are in milliseconds. -/
structure UpstreamState where
  response_time : UInt64
  connect_time : UInt64
  first_byte_time : UInt64
  bytes_sent : Nat
  bytes_received : Nat
  peer : Option PeerName
deriving DecidableEq, Repr

namespace UpstreamState

/-- The state of an attempt that begins at `ms`; until it ends `response_time` is its beginning. -/
def fresh (ms : UInt64) : UpstreamState := ⟨ms, no_time, no_time, 0, 0, none⟩

/-- The attempt ends at `ms`. -/
def settle (ms : UInt64) (state : UpstreamState) : UpstreamState :=
  { state with response_time := ms - state.response_time }

/-- What the connection has transferred. -/
def transferred (received sent : Nat) (state : UpstreamState) : UpstreamState :=
  { state with bytes_received := received, bytes_sent := sent }

end UpstreamState

/-- A session with `s->upstream_states`: `state` is `u->state`, and `settled` are the states in front
of it. -/
structure Logged (S : Type) where
  proxy : Proxy S
  settled : List UpstreamState
  state : Option UpstreamState

namespace Logged

/-- `s->upstream_states`. -/
def upstream_states (l : Logged S) : List UpstreamState := l.settled ++ l.state.toList

/-- `u->peer.name` behind a call of `ngx_event_connect_peer` that has answered `rc`. -/
def peer_name (rc : Int) (s : Proxy S) : Option PeerName :=
  if rc = NGX_BUSY then some .upstream else s.peer.sockaddr.map .peer

/-- `ngx_nsoc_proxy_connect` at the time `ms`. -/
def proxy_connect (ms : UInt64) (now : Int) (answer : Proxy.ConnectAnswer) (us : Upstream) (l : Logged S) :
    Result (Call × Upstream × Logged S) :=
  let settled := l.settled ++ (l.state.map (UpstreamState.settle ms)).toList
  let pushed := { l.proxy with connected := false }.ngx_alloc
  if ¬ pushed.1 then ok (.finalize, us, ⟨pushed.2, settled, none⟩) else do
  let r ← pushed.2.ngx_event_connect_peer now answer us
  if r.1 = NGX_ERROR then ok (.finalize, r.2.1, ⟨r.2.2, settled, some (.fresh ms)⟩) else
  let state := { UpstreamState.fresh ms with peer := peer_name r.1 r.2.2 }
  if r.1 = NGX_BUSY then ok (.finalize, r.2.1, ⟨r.2.2, settled, some state⟩)
  else if r.1 = NGX_DECLINED then ok (.next_upstream, r.2.1, ⟨r.2.2, settled, some state⟩)
  else if r.1 ≠ NGX_AGAIN then ok (.init_upstream, r.2.1, ⟨r.2.2, settled, some state⟩)
  else
    let s := (r.2.2.setHandlers .proxy_connect_handler).setWriteTimer true
    ok (.waiting, r.2.1, ⟨s, settled, some state⟩)

/-- `ngx_nsoc_proxy_init_upstream` at the time `ms`. -/
def init_upstream (ms : UInt64) (nodelay : Bool) (us : Upstream) (l : Logged S) :
    Result (Call × Upstream × Logged S) :=
  match l.proxy.peer.connection with
  | none => fault
  | some pc =>
    let set := l.proxy.set_nodelay nodelay
    if ¬ set.1 then ok (.next_upstream, us, { l with proxy := set.2 })
    else if l.proxy.stream ∧ l.proxy.conf.noise.isSome ∧ l.proxy.client_noise_connection.isNone then
      ok (.noise_init_connection, us, { l with proxy := set.2 })
    else
      match l.state with
      | none => fault
      | some state => do
        let r ← set.2.init_connected pc us
        let state := { state with connect_time := ms - state.response_time }
        ok (r.1, r.2.1, { l with proxy := r.2.2, state := some state })

/-- Data of the upstream has come at the time `ms`. -/
def first_byte (ms : UInt64) (state : UpstreamState) : UpstreamState :=
  if state.first_byte_time = no_time then { state with first_byte_time := ms - state.response_time }
  else state

/-- `ngx_nsoc_proxy_process` at the time `ms`; `read` says whether `recv` has answered for a connection
to the upstream. -/
def process (ms : UInt64) (answer : Proxy.ProcessAnswer) (read from_upstream : Bool) (l : Logged S) :
    Result (Call × Logged S) :=
  let x := l.proxy.process answer from_upstream
  if from_upstream ∧ l.proxy.connected ∧ read then
    match l.state with
    | none => fault
    | some state => ok (x.1, { l with proxy := x.2, state := some (first_byte ms state) })
  else ok (x.1, { l with proxy := x.2 })

/-- `ngx_nsoc_proxy_next_upstream`; `sent` is what the connection to the upstream has sent. -/
def next_upstream (now : Int) (expired : Bool) (sent : Nat) (us : Upstream) (l : Logged S) :
    Result (Call × Upstream × Logged S) := do
  let r ← l.proxy.next_upstream now expired us
  let state :=
    if r.1 = .connect ∧ l.proxy.peer.connection.isSome then
      l.state.map (UpstreamState.transferred l.proxy.received sent)
    else l.state
  ok (r.1, r.2.1, { l with proxy := r.2.2, state })

/-- `ngx_nsoc_proxy_finalize` at the time `ms`. -/
def finalize (ms : UInt64) (now : Int) (sent : Nat) (us : Upstream) (l : Logged S) :
    Result (Call × Upstream × Logged S) := do
  let state := l.state.map (UpstreamState.settle ms)
  let state :=
    if l.proxy.peer.connection.isSome then
      state.map (UpstreamState.transferred l.proxy.received sent)
    else state
  let r ← l.proxy.finalize now us
  ok (r.1, r.2.1, { l with proxy := r.2.2, state })

end Logged

/-- One call of a function of the module at the time `ms`, with the states. -/
inductive LoggedCall (N : NoiseC S) (ms : UInt64) :
    Upstream → Call × Logged S → Upstream → Call × Logged S → Prop where
  | connect {us us' : Upstream} {l l' : Logged S} {call : Call} (now : Int)
      (answer : Proxy.ConnectAnswer) (h : l.proxy_connect ms now answer us = ok (call, us', l')) :
      LoggedCall N ms us (.connect, l) us' (call, l')
  | init_upstream {us us' : Upstream} {l l' : Logged S} {call : Call} (nodelay : Bool)
      (h : l.init_upstream ms nodelay us = ok (call, us', l')) :
      LoggedCall N ms us (.init_upstream, l) us' (call, l')
  | noise_init_connection {us : Upstream} {l : Logged S} {s' : Proxy S} {call : Call} (fuel : Nat)
      (h : l.proxy.noise_init_connection N fuel = ok (call, s')) :
      LoggedCall N ms us (.noise_init_connection, l) us (call, { l with proxy := s' })
  | noise_handshake {us : Upstream} {l : Logged S} {s' : Proxy S} {call : Call}
      (h : l.proxy.noise_handshake = ok (call, s')) :
      LoggedCall N ms us (.noise_handshake, l) us (call, { l with proxy := s' })
  | process {us : Upstream} {l : Logged S} {x' : Call × Logged S} (answer : Proxy.ProcessAnswer)
      (read from_upstream do_write : Bool) (h : l.process ms answer read from_upstream = ok x') :
      LoggedCall N ms us (.process from_upstream do_write, l) us x'
  | next_upstream {us us' : Upstream} {l l' : Logged S} {call : Call} (now : Int) (expired : Bool)
      (sent : Nat) (h : l.next_upstream now expired sent us = ok (call, us', l')) :
      LoggedCall N ms us (.next_upstream, l) us' (call, l')
  | finalize {us us' : Upstream} {l l' : Logged S} {call : Call} (now : Int) (sent : Nat)
      (h : l.finalize ms now sent us = ok (call, us', l')) :
      LoggedCall N ms us (.finalize, l) us' (call, l')

/-- The times at which attempts begin and end, behind a call at the time `ms`. -/
def boundaries (ms : UInt64) (x : Call × Logged S) (times : List UInt64) : List UInt64 :=
  if x.1 = .connect ∨ (x.1 = .finalize ∧ x.2.state.isSome) then times ++ [ms] else times

/-- A session with its states, from its start on. The clock is that of the system, which may be set. -/
inductive LoggedRun (N : NoiseC S) (us₀ : Upstream) (s₀ : Proxy S) :
    List UInt64 → Upstream → Call × Logged S → Prop where
  | started : LoggedRun N us₀ s₀ [] us₀ ((s₀.proxy_handler us₀).1, ⟨(s₀.proxy_handler us₀).2, [], none⟩)
  | called {times : List UInt64} {us us' : Upstream} {x x' : Call × Logged S}
      (h : LoggedRun N us₀ s₀ times us x) (ms : UInt64) (hcall : LoggedCall N ms us x us' x') :
      LoggedRun N us₀ s₀ (boundaries ms x times) us' x'
  | event {times : List UInt64} {us : Upstream} {l : Logged S} {x' : Call × Proxy S}
      (h : LoggedRun N us₀ s₀ times us (.waiting, l)) (hevent : EventStep N l.proxy x') :
      LoggedRun N us₀ s₀ times us (x'.1, { l with proxy := x'.2 })
  | others {times : List UInt64} {us us' : Upstream} {x : Call × Logged S}
      (h : LoggedRun N us₀ s₀ times us x) (hshape : us'.shape = us.shape) :
      LoggedRun N us₀ s₀ times us' x

end ngx_nsoc_proxy
