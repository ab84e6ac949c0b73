import NoiseSocket.Handler.Handshake
import NoiseSocket.NoiseProtocol.Keys

open Exec Exec.Result

namespace ngx_nsoc

open ngx_noise_protocol

variable {S : Type}

/-- Where `s->phase_handler` stands: at the handler of `NGX_NSOC_PROTECT_PHASE`, or
behind it. -/
inductive SessionPhase where
  | protect
  | behind
deriving DecidableEq, Repr

/-- `ngx_nsoc_session_t` with the connection it was accepted on, as far as the phase
`NGX_NSOC_PROTECT_PHASE` goes, and the `ngx_noise_t` of its server. -/
structure Session (S : Type) where
  noise_on : Bool
  phase : SessionPhase
  closed : Bool
  c : Connection
  server_noise_connection : Option NoiseConnection
  ctx : NoiseCtx
  buffer_size : Nat
  noise : S
  prologue : PrologueData
  mem : Memory
  env : Env
  trace : List Obs

namespace Session

/-- The connection of the session together with its noise connection. -/
def endpoint (s : Session S) (nc : NoiseConnection) : Endpoint S where
  c := s.c
  nc := nc
  noise := s.noise
  prologue := s.prologue
  mem := s.mem
  env := s.env
  trace := s.trace

/-- The session behind code that has run on its connection. -/
def put (s : Session S) (w : Endpoint S) : Session S :=
  { s with
    c := w.c, server_noise_connection := some w.nc, noise := w.noise, prologue := w.prologue
    mem := w.mem, env := w.env, trace := w.trace }

/-- `ngx_nsoc_handshake` on the connection of the session. The noise connection to
the upstream belongs to another connection. -/
def handshake (N : NoiseC S) (fuel : Nat) (s : Session S) : Result (Int × Session S) :=
  match s.server_noise_connection with
  | none => ok (NGX_ERROR, s)
  | some nc =>
    if nc.connection = s.c.id then do
      let r ← (s.endpoint nc).do_handshake_process N fuel
      ok (r.1, s.put r.2)
    else ok (NGX_ERROR, s)

/-- An allocation from the pool of the connection. -/
def ngx_alloc (s : Session S) : Bool × Session S :=
  ((nextAnswer s.env.allocs).1, { s with env := { s.env with allocs := (nextAnswer s.env.allocs).2 } })

/-- `ngx_nsoc_create_connection` for a server: the noise connection and the cleanup of
the pool are allocated. -/
def create_connection (s : Session S) : Int × Session S :=
  let first := s.ngx_alloc
  if ¬ first.1 then (NGX_ERROR, first.2) else
  let second := first.2.ngx_alloc
  if ¬ second.1 then (NGX_ERROR, second.2) else
  (NGX_OK, { second.2 with
    server_noise_connection := some
      (ngx_nsoc.create_connection s.c.id s.ctx s.buffer_size .server false) })

/-- The assignment to `s->server_noise_connection->handler`. -/
def setHandler (s : Session S) (handler : ConnectionHandler) : Session S :=
  { s with server_noise_connection :=
      s.server_noise_connection.map fun nc => { nc with handler := some handler } }

/-- `ngx_nsoc_noiseserver_init_connection`. -/
def noiseserver_init_connection (N : NoiseC S) (fuel : Nat) (s : Session S) :
    Result (Int × Session S) := do
  let created := s.create_connection
  if created.1 = NGX_ERROR then ok (NGX_ERROR, created.2) else
  let r ← created.2.handshake N fuel
  if r.1 = NGX_ERROR then ok (NGX_ERROR, r.2)
  else if r.1 = NGX_AGAIN then ok (NGX_AGAIN, r.2.setHandler .noiseserver_handshake_handler)
  else ok (NGX_OK, r.2)

/-- `ngx_nsoc_noiseserver_handler`, with the key files of the server and what the
configuration pool answers. -/
def noiseserver_handler (N : NoiseC S) (conf : KeyConf) (alloc : KeyAlloc) (fuel : Nat)
    (s : Session S) : Result (Int × Session S) := do
  if ¬ s.noise_on then ok (NGX_OK, s) else
  let loaded ← noiseserver_load_keys conf alloc s.ctx s.mem
  let s := { s with ctx := loaded.2.1, mem := loaded.2.2 }
  if loaded.1 ≠ NGX_OK then ok (NGX_ERROR, s)
  else if s.server_noise_connection = none then
    let r ← s.noiseserver_init_connection N fuel
    if r.1 ≠ NGX_OK then ok (r.1, r.2) else ok (NGX_OK, r.2)
  else ok (NGX_OK, s)

/-- `ngx_nsoc_close_connection`: a connection with `noise_on` whose noise connection
is missing stays open. -/
def close_connection (s : Session S) : Session S :=
  if s.noise_on then
    match s.server_noise_connection with
    | none => s
    | some nc => if nc.connection = s.c.id then { s with closed := true } else s
  else { s with closed := true }

/-- `ngx_nsoc_core_generic_phase` behind the handler of the phase. -/
def generic_phase (s : Session S) (rc : Int) : Session S :=
  if rc = NGX_OK ∨ rc = NGX_DECLINED then { s with phase := .behind }
  else if rc = NGX_AGAIN ∨ rc = NGX_DONE then s
  else s.close_connection

/-- What an event handler of the session comes to: it returns, or it runs the phases. -/
inductive EventResult (S : Type) where
  | returned (s : Session S)
  | run_phases (s : Session S)

/-- `ngx_nsoc_noiseserver_handshake_handler`. -/
def noiseserver_handshake_handler (s : Session S) (nc : NoiseConnection) : EventResult S :=
  if ¬ nc.handshaked then .returned s.close_connection else
  let events := nextAnswer s.env.events
  let s := { s with
    c := { s.c with read := { s.c.read with timer_set := false } }
    env := { s.env with events := events.2 } }
  if events.1 then .run_phases s else .returned s

/-- The call of `nc->handler`. -/
def call_handler (s : Session S) : Result (EventResult S) :=
  match s.server_noise_connection with
  | none => fault
  | some nc =>
    match nc.handler with
    | some .noiseserver_handshake_handler => ok (s.noiseserver_handshake_handler nc)
    | _ => fault

/-- `ngx_nsoc_handshake_handler`. -/
def handshake_handler (N : NoiseC S) (fuel : Nat) (timedout : Bool) (s : Session S) :
    Result (EventResult S) :=
  match s.server_noise_connection with
  | none => ok (.returned s)
  | some nc =>
    if nc.connection ≠ s.c.id then ok (.returned s)
    else if timedout then s.call_handler
    else do
      let r ← s.handshake N fuel
      if r.1 = NGX_AGAIN then ok (.returned r.2) else r.2.call_handler

/-- What the operating system and the other sessions of the server may change while a
session waits. -/
def disturb (s : Session S) (read write : Event → Event) (ctx : NoiseCtx) (prologue : PrologueData)
    (mem : Memory) (env : Env) : Session S :=
  { s with
    c := { s.c with
      read := { read s.c.read with handler := s.c.read.handler }
      write := { write s.c.write with handler := s.c.write.handler } }
    ctx, prologue, mem, env }

/-- A session that a listener with `noise_on` has accepted and that has got to the
phase `NGX_NSOC_PROTECT_PHASE`. -/
structure Accepted (s : Session S) : Prop where
  noise_on : s.noise_on = true
  phase : s.phase = .protect
  server_noise_connection : s.server_noise_connection = none

/-- Between two events, or at a call of the handler of the phase. -/
inductive Point where
  | waiting
  | calling
deriving DecidableEq, Repr

/-- The states of a session, from its acceptance until it is behind the phase
`NGX_NSOC_PROTECT_PHASE`. -/
inductive Reachable (N : NoiseC S) (conf : KeyConf) : Point → Session S → Prop where
  | accepted {s : Session S} (hs : s.Accepted) : Reachable N conf .waiting s
  | disturbed {s : Session S} (hs : Reachable N conf .waiting s) (read write : Event → Event)
      (ctx : NoiseCtx) (prologue : PrologueData) (mem : Memory) (env : Env) :
      Reachable N conf .waiting (s.disturb read write ctx prologue mem env)
  | session_handler {s : Session S} (hs : Reachable N conf .waiting s) (hopen : s.closed = false)
      (hphase : s.phase = .protect) (hhandler : s.c.read.handler = .session_handler) :
      Reachable N conf .calling s
  | handshake_returned {s s' : Session S} {fuel : Nat} {timedout : Bool}
      (hs : Reachable N conf .waiting s) (hopen : s.closed = false) (hphase : s.phase = .protect)
      (hhandler : s.c.read.handler = .handshake_handler ∨ s.c.write.handler = .handshake_handler)
      (hevent : s.handshake_handler N fuel timedout = ok (.returned s')) :
      Reachable N conf .waiting s'
  | handshake_run {s s' : Session S} {fuel : Nat} {timedout : Bool}
      (hs : Reachable N conf .waiting s) (hopen : s.closed = false) (hphase : s.phase = .protect)
      (hhandler : s.c.read.handler = .handshake_handler ∨ s.c.write.handler = .handshake_handler)
      (hevent : s.handshake_handler N fuel timedout = ok (.run_phases s')) :
      Reachable N conf .calling s'
  | handled {s s' : Session S} {fuel : Nat} {alloc : KeyAlloc} {rc : Int}
      (hs : Reachable N conf .calling s)
      (hcall : s.noiseserver_handler N conf alloc fuel = ok (rc, s')) :
      Reachable N conf .waiting (s'.generic_phase rc)

end Session

end ngx_nsoc
