import NoiseSocket.Lib.Loop
import NoiseSocket.Nginx

open Exec Exec.Result

namespace ngx_nsoc

@[simp] abbrev NGX_NSOC_OK : Int := 200
@[simp] abbrev NGX_NSOC_BAD_REQUEST : Int := 400
@[simp] abbrev NGX_NSOC_INTERNAL_SERVER_ERROR : Int := 500

/-- `ngx_nsoc_phases`. -/
inductive Phase where
  | post_accept
  | preaccess
  | access
  | protect
  | preread
  | content
  | log
deriving DecidableEq, Repr

namespace Phase

/-- The phases that `ngx_nsoc_init_phase_handlers` walks through: those before
`NGX_NSOC_LOG_PHASE`. -/
def before_log : List Phase := [post_accept, preaccess, access, protect, preread, content]

end Phase

/-- `ngx_nsoc_phase_handler_pt`: the checkers of the phases. -/
inductive Checker where
  | generic_phase
  | preread_phase
  | content_phase
deriving DecidableEq, Repr

/-- `ngx_nsoc_phase_handler_s`. `H` is the type of the phase handlers. -/
structure PhaseHandler (H : Type) where
  checker : Checker
  handler : Option H
  next : Nat
deriving DecidableEq, Repr

/-- `cmcf->phase_engine`: how many entries have been allocated, and those that have been
written. The others are zero. -/
structure PhaseEngine (H : Type) where
  allocated : Nat
  handlers : List (PhaseHandler H)
deriving DecidableEq, Repr

namespace PhaseEngine

variable {H : Type}

/-- `*ph++ = entry`. -/
def push (engine : PhaseEngine H) (entry : PhaseHandler H) : Result (PhaseEngine H) :=
  if engine.handlers.length < engine.allocated then
    ok { engine with handlers := engine.handlers ++ [entry] }
  else fault

/-- `ph[i]`, for a reader that looks at the checker first. The pointer allocated behind
the last entry is the checker of the entry that ends the table. -/
def entry (engine : PhaseEngine H) (i : Nat) : Result (Option (PhaseHandler H)) :=
  match engine.handlers[i]? with
  | some ph => ok (some ph)
  | none => if i ≤ engine.allocated then ok none else fault

/-- The inner loop of `ngx_nsoc_init_phase_handlers`: the handlers of a phase from the
last one down to the first. -/
def fill (engine : PhaseEngine H) (checker : Checker) (next : Nat) (h : List H) :
    Result (PhaseEngine H) :=
  h.reverse.foldlM (fun engine handler => engine.push ⟨checker, some handler, next⟩) engine

/-- One pass of the outer loop, with the entries counted so far. -/
def init_phase (phases : Phase → List H) (engine : PhaseEngine H) (n : Nat) (i : Phase) :
    Result (PhaseEngine H × Nat) :=
  match i with
  | .preread => do
    let n := n + (phases i).length
    let engine ← engine.fill .preread_phase n (phases i)
    ok (engine, n)
  | .content => do
    let engine ← engine.push ⟨.content_phase, none, 0⟩
    ok (engine, n + 1)
  | _ => do
    let n := n + (phases i).length
    let engine ← engine.fill .generic_phase n (phases i)
    ok (engine, n)

/-- The outer loop. -/
def init_phases (phases : Phase → List H) : List Phase → PhaseEngine H → Nat →
    Result (PhaseEngine H)
  | [], engine, _ => ok engine
  | i :: rest, engine, n => do
    let r ← engine.init_phase phases n i
    init_phases phases rest r.1 r.2

end PhaseEngine

/-- `ngx_nsoc_init_phase_handlers`, with what `ngx_pcalloc` answers. -/
def init_phase_handlers {H : Type} (phases : Phase → List H) (alloc : Bool) :
    Result (Option (PhaseEngine H)) :=
  let n := 1 + (Phase.before_log.map fun i => (phases i).length).sum
  if ¬ alloc then ok none else do
    let engine ← PhaseEngine.init_phases phases Phase.before_log ⟨n, []⟩ 0
    ok (some engine)

namespace core

/-- What `c->recv` answers, and what it leaves in the read event. -/
structure Received where
  n : Int
  ready : Bool
  eof : Bool
deriving DecidableEq, Repr

/-- The connection of a session: the room left in `c->buffer`, whether `c->tcp_nodelay`
is `NGX_TCP_NODELAY_UNSET`, and the answers of the operating system. -/
structure Client where
  c : Connection
  sock_stream : Bool
  tcp_nodelay_unset : Bool
  buffer : Option Nat
  recvs : List Received
  events : List Bool
  allocs : List Bool
  setsockopts : List Bool
deriving DecidableEq, Repr

/-- `ngx_nsoc_core_srv_conf_t`. -/
structure SrvConf where
  tcp_nodelay : Bool
  preread_buffer_size : Nat

/-- A call of a phase handler with what it has returned, or of the content handler,
which returns nothing. -/
structure Call (H : Type) where
  entry : Nat
  handler : Option H
  rc : Option Int
deriving DecidableEq, Repr

/-- `ngx_nsoc_session_t`, with the calls made so far, the latest first, and the code the
session has been finalized with. -/
structure Session (H : Type) where
  phase_handler : Nat
  client : Client
  calls : List (Call H)
  finalized : Option Int
deriving DecidableEq, Repr

/-- What the handlers do to the connection and what they return, which may differ from
call to call. -/
abbrev Handle (H : Type) := List (Call H) → H → Client → Int × Client

namespace Session

variable {H : Type}

/-- `ph->handler(s)`. -/
def call_handler (handle : Handle H) (ph : PhaseHandler H) (s : Session H) :
    Result (Int × Session H) :=
  match ph.handler with
  | none => fault
  | some h =>
    let r := handle s.calls h s.client
    ok (r.1, { s with client := r.2, calls := ⟨s.phase_handler, some h, some r.1⟩ :: s.calls })

/-- `ngx_nsoc_finalize_session`, as far as the phases go. -/
def finalize_session (s : Session H) (rc : Int) : Session H :=
  { s with finalized := some rc }

/-- `ngx_nsoc_core_generic_phase`. -/
def generic_phase (handle : Handle H) (ph : PhaseHandler H) (s : Session H) :
    Result (Int × Session H) := do
  let r ← s.call_handler handle ph
  if r.1 = NGX_OK then ok (NGX_AGAIN, { r.2 with phase_handler := ph.next })
  else if r.1 = NGX_DECLINED then
    ok (NGX_AGAIN, { r.2 with phase_handler := r.2.phase_handler + 1 })
  else if r.1 = NGX_AGAIN ∨ r.1 = NGX_DONE then ok (NGX_OK, r.2)
  else
    let rc := if r.1 = NGX_ERROR then NGX_NSOC_INTERNAL_SERVER_ERROR else r.1
    ok (NGX_OK, r.2.finalize_session rc)

/-- `c->buffer` is there, or it is allocated: the room in it. -/
def prepare_buffer (conf : SrvConf) (s : Session H) : Option Nat × Session H :=
  match s.client.buffer with
  | some size => (some size, s)
  | none =>
    let alloc := nextAnswer s.client.allocs
    if alloc.1 then
      (some conf.preread_buffer_size,
        { s with client := { s.client with
          buffer := some conf.preread_buffer_size, allocs := alloc.2 } })
    else (none, { s with client := { s.client with allocs := alloc.2 } })

/-- `ngx_handle_read_event`. -/
def handle_read_event (s : Session H) : Bool × Session H :=
  let event := nextAnswer s.client.events
  (event.1, { s with client := { s.client with events := event.2 } })

/-- The timer is armed and the phases are the handler of the next read event. -/
def await_read (s : Session H) : Session H :=
  { s with client := { s.client with c := { s.client.c with
      read := { s.client.c.read with timer_set := true, handler := .session_handler } } } }

/-- `c->recv` behind the bytes already in the buffer. A kernel that has nothing more to
say answers `NGX_AGAIN`. -/
def recv (size : Nat) (s : Session H) : Int × Session H :=
  let answer : Received × List Received :=
    match s.client.recvs with
    | [] => (⟨NGX_AGAIN, false, s.client.c.read.eof⟩, [])
    | first :: rest => (first, rest)
  let n := answer.1.n
  (n, { s with client := { s.client with
    c := { s.client.c with
      read := { s.client.c.read with ready := answer.1.ready, eof := answer.1.eof } }
    buffer := if 0 < n then some (size - n.toNat) else s.client.buffer
    recvs := answer.2 } })

/-- How the loop of `ngx_nsoc_core_preread_phase` ends: the checker returns inside it, or
the code behind it sees `rc`. -/
inductive Preread (H : Type) where
  | suspended (s : Session H)
  | left (rc : Int) (s : Session H)

/-- One pass of the loop of `ngx_nsoc_core_preread_phase`. -/
def preread_pass (handle : Handle H) (conf : SrvConf) (ph : PhaseHandler H)
    (x : Int × Session H) : Result (ControlFlow (Int × Session H) (Preread H)) :=
  if x.1 ≠ NGX_AGAIN then ok (.done (.left x.1 x.2)) else
  let prepared := x.2.prepare_buffer conf
  match prepared.1 with
  | none => ok (.done (.left NGX_ERROR prepared.2))
  | some size =>
    if size = 0 then ok (.done (.left NGX_NSOC_BAD_REQUEST prepared.2))
    else if prepared.2.client.c.read.eof then ok (.done (.left NGX_NSOC_OK prepared.2))
    else if ¬ prepared.2.client.c.read.ready then
      let event := prepared.2.handle_read_event
      if ¬ event.1 then ok (.done (.left NGX_ERROR event.2))
      else ok (.done (.suspended event.2.await_read))
    else
      let received := prepared.2.recv size
      if received.1 = NGX_ERROR then ok (.done (.left NGX_NSOC_OK received.2))
      else do
        let r ← received.2.call_handler handle ph
        ok (.cont r)

/-- The code of `ngx_nsoc_core_preread_phase` in front of its loop. -/
def preread_start (handle : Handle H) (ph : PhaseHandler H) (s : Session H) :
    Result (Int × Session H) :=
  if s.client.c.read.timedout then ok (NGX_NSOC_OK, s)
  else if s.client.c.read.timer_set then ok (NGX_AGAIN, s)
  else s.call_handler handle ph

/-- The code of `ngx_nsoc_core_preread_phase` behind its loop. -/
def preread_end (ph : PhaseHandler H) (rc : Int) (s : Session H) : Int × Session H :=
  let s : Session H := { s with client := { s.client with c := { s.client.c with
    read := { s.client.c.read with timer_set := false } } } }
  if rc = NGX_OK then (NGX_AGAIN, { s with phase_handler := ph.next })
  else if rc = NGX_DECLINED then (NGX_AGAIN, { s with phase_handler := s.phase_handler + 1 })
  else if rc = NGX_DONE then (NGX_OK, s)
  else
    let rc := if rc = NGX_ERROR then NGX_NSOC_INTERNAL_SERVER_ERROR else rc
    (NGX_OK, s.finalize_session rc)

/-- `ngx_nsoc_core_preread_phase`. -/
def preread_phase (handle : Handle H) (conf : SrvConf) (fuel : Nat) (ph : PhaseHandler H)
    (s : Session H) : Result (Int × Session H) := do
  let start ← s.preread_start handle ph
  match ← loop (preread_pass handle conf ph) fuel start with
  | .suspended s => ok (NGX_OK, s)
  | .left rc s => ok (s.preread_end ph rc)

/-- `ngx_nsoc_core_content_phase`. -/
def content_phase (conf : SrvConf) (s : Session H) : Int × Session H :=
  let content (s : Session H) : Session H :=
    { s with calls := ⟨s.phase_handler, none, none⟩ :: s.calls }
  if s.client.sock_stream ∧ conf.tcp_nodelay ∧ s.client.tcp_nodelay_unset then
    let option := nextAnswer s.client.setsockopts
    let s : Session H := { s with client := { s.client with setsockopts := option.2 } }
    if ¬ option.1 then (NGX_OK, s.finalize_session NGX_NSOC_INTERNAL_SERVER_ERROR)
    else (NGX_OK, content { s with client := { s.client with tcp_nodelay_unset := false } })
  else (NGX_OK, content s)

/-- `ph->checker(s, ph)`. -/
def check (handle : Handle H) (conf : SrvConf) (fuel : Nat) (ph : PhaseHandler H)
    (s : Session H) : Result (Int × Session H) :=
  match ph.checker with
  | .generic_phase => s.generic_phase handle ph
  | .preread_phase => s.preread_phase handle conf fuel ph
  | .content_phase => ok (s.content_phase conf)

/-- One pass of the loop of `ngx_nsoc_core_run_phases`. -/
def run_pass (handle : Handle H) (conf : SrvConf) (engine : PhaseEngine H) (fuel : Nat)
    (s : Session H) : Result (ControlFlow (Session H) (Session H)) := do
  match ← engine.entry s.phase_handler with
  | none => ok (.done s)
  | some ph => do
    let r ← s.check handle conf fuel ph
    if r.1 = NGX_OK then ok (.done r.2) else ok (.cont r.2)

/-- `ngx_nsoc_core_run_phases`. -/
def run_phases (handle : Handle H) (conf : SrvConf) (engine : PhaseEngine H) (fuel : Nat)
    (s : Session H) : Result (Session H) :=
  loop (run_pass handle conf engine fuel) fuel s

/-- A session as `ngx_nsoc_init_connection` creates it. -/
def created (client : Client) : Session H where
  phase_handler := 0
  client := client
  calls := []
  finalized := none

/-- The states of a session: it is created, the operating system and the code that waits
for it change its connection, and an event runs the phases. -/
inductive Reachable (handle : Handle H) (conf : SrvConf) (engine : PhaseEngine H) :
    Session H → Prop where
  | created (client : Client) : Reachable handle conf engine (created client)
  | disturbed {s : Session H} (hs : Reachable handle conf engine s) (client : Client) :
      Reachable handle conf engine { s with client := client }
  | run {s s' : Session H} (fuel : Nat) (hs : Reachable handle conf engine s)
      (hopen : s.finalized = none) (hrun : s.run_phases handle conf engine fuel = ok s') :
      Reachable handle conf engine s'

end Session

end core

end ngx_nsoc
