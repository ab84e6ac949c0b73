import NoiseSocket.Handler.Handshake
import NoiseSocket.Upstream.RoundRobin

open Exec Exec.Result

namespace ngx_nsoc_proxy

open ngx_nsoc ngx_nsoc_upstream

variable {S : Type}

/-- What `ngx_nsoc_proxy_srv_conf_t` and the core configuration say about the upstream side.
`noise` is `pscf->noise`, its keys and its buffer size; `responses` is absent for
`NGX_MAX_INT32_VALUE`. -/
structure SrvConf where
  noise : Option (NoiseCtx × Nat)
  tcp_nodelay : Bool
  responses : Option Nat
  next_upstream : Bool
  next_upstream_tries : Nat
deriving DecidableEq, Repr

/-- `ngx_nsoc_session_t` with its `ngx_nsoc_upstream_t`, as far as the upstream side goes, and
what stands behind the noise connection to the upstream. The last three fields record, newest
first, the peers that were selected, the peers that were freed, and the transport of the
upstream connections that client data was passed to. -/
structure Proxy (S : Type) where
  conf : SrvConf
  stream : Bool
  notify : Bool
  preread : Bool
  connected : Bool
  peer : PeerConnection
  tcp_nodelay : Bool
  received : Nat
  upstream_buf : Bool
  upstream_out : Bool
  upstream_busy : Bool
  buffered : Bool
  client_noise_connection : Option NoiseConnection
  noise : S
  prologue : PrologueData
  mem : Memory
  env : Env
  trace : List Obs
  attempts : List (Group × Nat)
  freed : List (Group × Nat)
  relayed : List Transport

/-- Where a session stands: between two events, at a call, or behind its end. All calls
between the functions of the module are tail calls. -/
inductive Call where
  | waiting
  | connect
  | init_upstream
  | noise_init_connection
  | noise_handshake
  | process (from_upstream do_write : Bool)
  | next_upstream
  | finalize
  | ended
deriving DecidableEq, Repr

namespace Proxy

/-- The connection to the upstream together with its noise connection. -/
def endpoint (s : Proxy S) (pc : Connection) (nc : NoiseConnection) : Endpoint S where
  c := pc
  nc := nc
  noise := s.noise
  prologue := s.prologue
  mem := s.mem
  env := s.env
  trace := s.trace

/-- The session behind code that has run on the connection to the upstream. -/
def put (s : Proxy S) (w : Endpoint S) : Proxy S :=
  { s with
    peer := { s.peer with connection := some w.c }, client_noise_connection := some w.nc
    noise := w.noise, prologue := w.prologue, mem := w.mem, env := w.env, trace := w.trace }

/-- An allocation from the pool of the session. -/
def ngx_alloc (s : Proxy S) : Bool × Proxy S :=
  ((nextAnswer s.env.allocs).1,
    { s with env := { s.env with allocs := (nextAnswer s.env.allocs).2 } })

def setConnection (s : Proxy S) (connection : Option Connection) : Proxy S :=
  { s with peer := { s.peer with connection } }

/-- Both events of the connection to the upstream get the handler `h`. -/
def setHandlers (s : Proxy S) (h : EventHandler) : Proxy S :=
  s.setConnection (s.peer.connection.map fun pc =>
    { pc with read := { pc.read with handler := h }, write := { pc.write with handler := h } })

def setWriteTimer (s : Proxy S) (armed : Bool) : Proxy S :=
  s.setConnection (s.peer.connection.map fun pc =>
    { pc with write := { pc.write with timer_set := armed } })

/-- A session behind the allocation of its `ngx_nsoc_upstream_t`, which is zeroed. -/
def create (conf : SrvConf) (stream notify preread : Bool) (noise : S) (prologue : PrologueData)
    (mem : Memory) (env : Env) : Proxy S where
  conf := conf
  stream := stream
  notify := notify
  preread := preread
  connected := false
  peer := ⟨none, none, 0, ⟨.primary, none, []⟩⟩
  tcp_nodelay := false
  received := 0
  upstream_buf := false
  upstream_out := false
  upstream_busy := false
  buffered := false
  client_noise_connection := none
  noise := noise
  prologue := prologue
  mem := mem
  env := env
  trace := []
  attempts := []
  freed := []
  relayed := []

/-- `peer.tries` behind the test of `next_upstream_tries`. -/
def SrvConf.tries (conf : SrvConf) (tries : Nat) : Nat :=
  if conf.next_upstream_tries ≠ 0 ∧ conf.next_upstream_tries < tries then conf.next_upstream_tries
  else tries

/-- `ngx_nsoc_proxy_handler` from the initialisation of the peer on. -/
def proxy_handler (us : Upstream) (s : Proxy S) : Call × Proxy S :=
  let allocated := s.ngx_alloc
  if ¬ allocated.1 then (.finalize, allocated.2) else
  let peer := init_round_robin_peer us
  (.connect, { allocated.2 with peer := { peer with tries := SrvConf.tries s.conf peer.tries } })

/-- What the operating system makes of the attempt to connect to the selected peer: there is
no socket, the peer is refused, or there is a new connection, which is still being
established or is established, with what will happen on it. -/
inductive ConnectAnswer where
  | error
  | declined
  | again (id : Nat) (env : Env)
  | connected (id : Nat) (env : Env)
deriving DecidableEq, Repr

/-- A new connection to the upstream. -/
def newConnection (s : Proxy S) (id : Nat) (env : Env) : Proxy S :=
  { s.setConnection (some (.fresh id)) with tcp_nodelay := false, buffered := false, env := env }

/-- `ngx_event_connect_peer`: a peer is selected, and a connection to it is tried. -/
def ngx_event_connect_peer (now : Int) (answer : ConnectAnswer) (us : Upstream) (s : Proxy S) :
    Result (Int × Upstream × Proxy S) := do
  let r ← get_round_robin_peer now us s.peer
  if r.1 ≠ NGX_OK then ok (r.1, r.2.1, { s with peer := r.2.2 }) else
  let s := { s with peer := r.2.2, attempts := r.2.2.sockaddr.toList ++ s.attempts }
  match answer with
  | .error => ok (NGX_ERROR, r.2.1, s)
  | .declined => ok (NGX_DECLINED, r.2.1, s)
  | .again id env => ok (NGX_AGAIN, r.2.1, s.newConnection id env)
  | .connected id env => ok (NGX_OK, r.2.1, s.newConnection id env)

/-- `ngx_nsoc_proxy_connect`. -/
def proxy_connect (now : Int) (answer : ConnectAnswer) (us : Upstream) (s : Proxy S) :
    Result (Call × Upstream × Proxy S) :=
  let pushed := { s with connected := false }.ngx_alloc
  if ¬ pushed.1 then ok (.finalize, us, pushed.2) else do
  let r ← pushed.2.ngx_event_connect_peer now answer us
  if r.1 = NGX_ERROR ∨ r.1 = NGX_BUSY then ok (.finalize, r.2)
  else if r.1 = NGX_DECLINED then ok (.next_upstream, r.2)
  else if r.1 ≠ NGX_AGAIN then ok (.init_upstream, r.2)
  else ok (.waiting, r.2.1, (r.2.2.setHandlers .proxy_connect_handler).setWriteTimer true)

/-- `TCP_NODELAY` is set on a connection for which it is unset; `nodelay` is what
`setsockopt` answers. -/
def set_nodelay (nodelay : Bool) (s : Proxy S) : Bool × Proxy S :=
  if s.stream ∧ s.conf.tcp_nodelay ∧ ¬ s.tcp_nodelay then
    (nodelay, { s with tcp_nodelay := nodelay })
  else (true, s)

/-- The call of `u->peer.notify`. -/
def notify_peer (us : Upstream) (s : Proxy S) : Result Upstream :=
  if s.notify then notify_round_robin_peer us s.peer else ok us

/-- The buffer for the data of the upstream is allocated once. -/
def alloc_upstream_buf (s : Proxy S) : Bool × Proxy S :=
  if s.upstream_buf then (true, s)
  else (s.ngx_alloc.1, { s.ngx_alloc.2 with upstream_buf := s.ngx_alloc.1 })

/-- The bytes that were read ahead become the first link of `upstream_out`. -/
def link_preread (s : Proxy S) : Bool × Proxy S :=
  if s.preread then
    (s.ngx_alloc.1, { s.ngx_alloc.2 with upstream_out := s.ngx_alloc.1 ∨ s.upstream_out })
  else (true, s)

/-- The relay starts; an upstream of which no responses are expected is at its end. -/
def set_connected (pc : Connection) (s : Proxy S) : Proxy S :=
  let pc : Connection :=
    if ¬ s.stream ∧ s.conf.responses = some 0 then
      { pc with read := { pc.read with ready := false, eof := true } }
    else pc
  { s.setConnection (some pc) with connected := true }.setHandlers .proxy_upstream_handler

/-- `ngx_nsoc_proxy_init_upstream` behind the noise handshake. -/
def init_connected (pc : Connection) (us : Upstream) (s : Proxy S) :
    Result (Call × Upstream × Proxy S) := do
  let us ← s.notify_peer us
  let allocated := s.alloc_upstream_buf
  if ¬ allocated.1 then ok (.finalize, us, allocated.2) else
  let linked := allocated.2.link_preread
  if ¬ linked.1 then ok (.finalize, us, linked.2) else
  ok (.process false true, us, linked.2.set_connected pc)

/-- `ngx_nsoc_proxy_init_upstream`. -/
def init_upstream (nodelay : Bool) (us : Upstream) (s : Proxy S) :
    Result (Call × Upstream × Proxy S) :=
  match s.peer.connection with
  | none => fault
  | some pc =>
    let set := s.set_nodelay nodelay
    if ¬ set.1 then ok (.next_upstream, us, set.2)
    else if s.stream ∧ s.conf.noise.isSome ∧ s.client_noise_connection.isNone then
      ok (.noise_init_connection, us, set.2)
    else set.2.init_connected pc us

/-- `ngx_nsoc_create_connection` for a client with a buffer of its own. -/
def create_connection (pc : Connection) (noise : NoiseCtx × Nat) (s : Proxy S) : Int × Proxy S :=
  let first := s.ngx_alloc
  if ¬ first.1 then (NGX_ERROR, first.2) else
  let second := first.2.ngx_alloc
  if ¬ second.1 then (NGX_ERROR, second.2) else
  (NGX_OK, { second.2 with
    client_noise_connection := some
      (ngx_nsoc.create_connection pc.id noise.1 noise.2 .client true) })

/-- `ngx_nsoc_handshake` on the connection to the upstream. The noise connection of the
client belongs to another connection. -/
def handshake (N : NoiseC S) (fuel : Nat) (pc : Connection) (s : Proxy S) : Result (Int × Proxy S) :=
  match s.client_noise_connection with
  | none => ok (NGX_ERROR, s)
  | some nc =>
    if nc.connection = pc.id then do
      let r ← (s.endpoint pc nc).do_handshake_process N fuel
      ok (r.1, s.put r.2)
    else ok (NGX_ERROR, s)

/-- The assignment to `s->client_noise_connection->handler`. -/
def setHandler (s : Proxy S) (handler : ConnectionHandler) : Proxy S :=
  { s with client_noise_connection :=
      s.client_noise_connection.map fun nc => { nc with handler := some handler } }

/-- `ngx_nsoc_proxy_noise_init_connection`. -/
def noise_init_connection (N : NoiseC S) (fuel : Nat) (s : Proxy S) : Result (Call × Proxy S) :=
  match s.peer.connection, s.conf.noise with
  | some pc, some noise =>
    let created := s.create_connection pc noise
    if created.1 ≠ NGX_OK then ok (.finalize, created.2) else do
    let r ← created.2.handshake N fuel pc
    if r.1 = NGX_AGAIN then ok (.waiting, r.2.setHandler .proxy_noise_handshake)
    else ok (.noise_handshake, r.2)
  | _, _ => fault

/-- `ngx_nsoc_proxy_noise_handshake`. -/
def noise_handshake (s : Proxy S) : Result (Call × Proxy S) :=
  match s.client_noise_connection with
  | none => fault
  | some nc =>
    if nc.handshaked then ok (.init_upstream, s.setWriteTimer false) else ok (.next_upstream, s)

/-- `ngx_nsoc_proxy_connect_handler`; `tested` is what `ngx_nsoc_proxy_test_connect` finds. -/
def connect_handler (timedout tested : Bool) (s : Proxy S) : Call × Proxy S :=
  if timedout then (.next_upstream, s) else
  let s := s.setWriteTimer false
  if ¬ tested then (.next_upstream, s) else (.init_upstream, s)

/-- The call of `nc->handler`. -/
def call_handler (s : Proxy S) (nc : NoiseConnection) : Result (Call × Proxy S) :=
  match nc.handler with
  | some .proxy_noise_handshake => ok (.noise_handshake, s)
  | _ => fault

/-- `ngx_nsoc_handshake_handler` on the connection to the upstream. -/
def handshake_handler (N : NoiseC S) (fuel : Nat) (timedout : Bool) (pc : Connection) (s : Proxy S) :
    Result (Call × Proxy S) :=
  match s.client_noise_connection with
  | none => ok (.waiting, s)
  | some nc =>
    if nc.connection ≠ pc.id then ok (.waiting, s)
    else if timedout then s.call_handler nc
    else do
      let r ← s.handshake N fuel pc
      if r.1 = NGX_AGAIN then ok (.waiting, r.2) else
      match r.2.client_noise_connection with
      | none => fault
      | some nc => r.2.call_handler nc

/-- The event that an upstream or downstream handler is called with, and what
`ngx_handle_read_event` answers in it. -/
structure ProxyEvent where
  write : Bool
  ready : Bool
  delayed : Bool
  timedout : Bool
  handled : Bool
deriving DecidableEq, Repr

/-- `ngx_nsoc_proxy_process_connection`. -/
def process_connection (ev : ProxyEvent) (from_upstream : Bool) (s : Proxy S) : Call :=
  let run := if from_upstream ∧ ¬ s.connected then .waiting else .process from_upstream ev.write
  if ev.timedout then
    if ev.delayed then
      if ev.ready then run else if ev.handled then .waiting else .finalize
    else if s.stream then .finalize
    else if s.conf.responses = none then .process true false
    else if s.received = 0 then .next_upstream
    else .finalize
  else if ev.delayed then if ev.handled then .waiting else .finalize
  else run

/-- How a call of `ngx_nsoc_proxy_process` ends. -/
inductive ProcessExit where
  | returned
  | next_upstream
  | finalize
deriving DecidableEq, Repr

/-- What the relay of `ngx_nsoc_proxy_process` comes to: whether the write filter was
called, what it has left, what it did to the connection to the upstream, and its end. -/
structure ProcessAnswer where
  written : Bool
  received : Nat
  upstream_out : Bool
  upstream_busy : Bool
  buffered : Bool
  read : Event → Event
  write : Event → Event
  nc : NoiseConnection → NoiseConnection
  exit : ProcessExit

/-- A connection of which the events have changed, but not their handlers or the transport. -/
def touched (read write : Event → Event) (pc : Connection) : Connection :=
  { pc with
    read := { read pc.read with handler := pc.read.handler }
    write := { write pc.write with handler := pc.write.handler } }

/-- The noise connection behind a relay, which only sends and receives data. -/
def ProcessAnswer.noise_connection (answer : ProcessAnswer) (nc : NoiseConnection) :
    NoiseConnection :=
  { answer.nc nc with connection := nc.connection, handshaked := nc.handshaked }

/-- The loop of `ngx_nsoc_proxy_process`: client data goes to a connected upstream only. -/
def relay (answer : ProcessAnswer) (from_upstream : Bool) (s : Proxy S) : Proxy S :=
  let s := { s with
    received := answer.received
    upstream_out := answer.upstream_out
    upstream_busy := answer.upstream_busy }
  match s.peer.connection with
  | none => s
  | some pc =>
    if s.connected then
      { s.setConnection (some (touched answer.read answer.write pc)) with
        buffered := answer.buffered
        client_noise_connection := s.client_noise_connection.map answer.noise_connection
        relayed :=
          if answer.written ∧ ¬ from_upstream then pc.transport :: s.relayed else s.relayed }
    else s

/-- `ngx_nsoc_proxy_process`. Only a relay of datagrams may turn to the next upstream. -/
def process (answer : ProcessAnswer) (from_upstream : Bool) (s : Proxy S) : Call × Proxy S :=
  let s := s.relay answer from_upstream
  match answer.exit with
  | .returned => (.waiting, s)
  | .next_upstream => (if s.stream then .finalize else .next_upstream, s)
  | .finalize => (.finalize, s)

/-- The call of `u->peer.free`, if a peer is selected. -/
def free_peer (now : Int) (failed : Bool) (us : Upstream) (s : Proxy S) :
    Result (Upstream × Proxy S) :=
  if s.peer.sockaddr.isNone then ok (us, s) else do
  let r ← free_round_robin_peer now us s.peer failed
  ok (r.1, { s with
    peer := { r.2 with sockaddr := none }, freed := s.peer.data.current.toList ++ s.freed })

/-- `ngx_nsoc_proxy_next_upstream`; `expired` is the test of `next_upstream_timeout`. -/
def next_upstream (now : Int) (expired : Bool) (us : Upstream) (s : Proxy S) :
    Result (Call × Upstream × Proxy S) :=
  if s.upstream_out ∨ s.upstream_busy ∨ (s.peer.connection.isSome ∧ s.buffered) then
    ok (.finalize, us, s)
  else do
  let r ← s.free_peer now true us
  if r.2.peer.tries = 0 ∨ ¬ s.conf.next_upstream ∨ expired then ok (.finalize, r)
  else ok (.connect, r.1, r.2.setConnection none)

/-- `ngx_nsoc_proxy_finalize`. -/
def finalize (now : Int) (us : Upstream) (s : Proxy S) : Result (Call × Upstream × Proxy S) := do
  let r ← s.free_peer now false us
  ok (.ended, r.1, r.2.setConnection none)

/-- What the operating system and the other sessions may change while a session waits. -/
def disturb (s : Proxy S) (read write : Event → Event) (prologue : PrologueData) (mem : Memory)
    (env : Env) : Proxy S :=
  { s.setConnection (s.peer.connection.map (touched read write)) with prologue, mem, env }

end Proxy

/-- An event handler of the connection to the upstream. -/
def Handles (s : Proxy S) (pc : Connection) (h : EventHandler) : Prop :=
  s.peer.connection = some pc ∧ (pc.read.handler = h ∨ pc.write.handler = h)

/-- One call of a function of the module. -/
inductive CallStep (N : NoiseC S) :
    Upstream → Call × Proxy S → Upstream → Call × Proxy S → Prop where
  | connect {us us' : Upstream} {s s' : Proxy S} {call : Call} (now : Int)
      (answer : Proxy.ConnectAnswer) (h : s.proxy_connect now answer us = ok (call, us', s')) :
      CallStep N us (.connect, s) us' (call, s')
  | init_upstream {us us' : Upstream} {s s' : Proxy S} {call : Call} (nodelay : Bool)
      (h : s.init_upstream nodelay us = ok (call, us', s')) :
      CallStep N us (.init_upstream, s) us' (call, s')
  | noise_init_connection {us : Upstream} {s s' : Proxy S} {call : Call} (fuel : Nat)
      (h : s.noise_init_connection N fuel = ok (call, s')) :
      CallStep N us (.noise_init_connection, s) us (call, s')
  | noise_handshake {us : Upstream} {s s' : Proxy S} {call : Call}
      (h : s.noise_handshake = ok (call, s')) :
      CallStep N us (.noise_handshake, s) us (call, s')
  | process {us : Upstream} {s : Proxy S} (answer : Proxy.ProcessAnswer)
      (from_upstream do_write : Bool) :
      CallStep N us (.process from_upstream do_write, s) us (s.process answer from_upstream)
  | next_upstream {us us' : Upstream} {s s' : Proxy S} {call : Call} (now : Int) (expired : Bool)
      (h : s.next_upstream now expired us = ok (call, us', s')) :
      CallStep N us (.next_upstream, s) us' (call, s')
  | finalize {us us' : Upstream} {s s' : Proxy S} {call : Call} (now : Int)
      (h : s.finalize now us = ok (call, us', s')) :
      CallStep N us (.finalize, s) us' (call, s')

/-- An event of a session that waits. -/
inductive EventStep (N : NoiseC S) : Proxy S → Call × Proxy S → Prop where
  | connect_handler {s : Proxy S} {pc : Connection} (timedout tested : Bool)
      (hpc : Handles s pc .proxy_connect_handler) :
      EventStep N s (s.connect_handler timedout tested)
  | handshake_handler {s s' : Proxy S} {pc : Connection} {call : Call} (fuel : Nat)
      (timedout : Bool) (hpc : Handles s pc .handshake_handler)
      (h : s.handshake_handler N fuel timedout pc = ok (call, s')) : EventStep N s (call, s')
  | upstream_handler {s : Proxy S} {pc : Connection} (ev : Proxy.ProxyEvent)
      (hpc : Handles s pc .proxy_upstream_handler) :
      EventStep N s (s.process_connection ev (!ev.write), s)
  | downstream_handler {s : Proxy S} (ev : Proxy.ProxyEvent) :
      EventStep N s (s.process_connection ev ev.write, s)
  | disturbed {s : Proxy S} (read write : Event → Event) (prologue : PrologueData)
      (mem : Memory) (env : Env) : EventStep N s (.waiting, s.disturb read write prologue mem env)

end ngx_nsoc_proxy
