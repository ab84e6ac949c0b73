import NoiseSocket.Phases
import NoiseSocket.Proxy
import NoiseSocket.Session

open Exec Exec.Result

namespace ngx_nsoc

open ngx_noise_protocol

variable {S : Type}

/-- The phase behind a phase. -/
def Phase.next : Phase → Phase
  | .post_accept => .preaccess
  | .preaccess => .access
  | .access => .protect
  | .protect => .preread
  | .preread => .content
  | .content => .log
  | .log => .log

/-- What a call of `ngx_nsoc_finalize_session` finds in the session. -/
structure FinalizeCall where
  noise_on : Bool
  server_noise_connection : Option NoiseConnection
deriving DecidableEq, Repr

/-- A session from its creation to its end: the phase that `s->phase_handler` stands in, whether
`ngx_nsoc_core_run_phases` is running, its proxy, the calls of `ngx_nsoc_finalize_session`, newest
first, and how often its connection was closed and its pool destroyed. -/
structure Lifetime (S : Type) where
  session : Session S
  stage : Phase
  running : Bool
  proxy : Option (ngx_nsoc_proxy.Call × ngx_nsoc_proxy.Proxy S)
  finalized : List FinalizeCall
  closes : Nat
  destroys : Nat

/-- `ngx_nsoc_shutdown`. -/
def ngx_nsoc_shutdown : Int := NGX_OK

namespace Lifetime

/-- `s->client_noise_connection`. -/
def client_noise_connection (l : Lifetime S) : Option NoiseConnection :=
  l.proxy.bind fun proxy => proxy.2.client_noise_connection

/-- The noise connection that belongs to the connection of the session, if there is one. -/
def noise_connection (l : Lifetime S) : Option NoiseConnection :=
  let own (nc : NoiseConnection) : Bool := nc.connection = l.session.c.id
  (l.client_noise_connection.filter own).or (l.session.server_noise_connection.filter own)

/-- The end of `ngx_nsoc_close_connection`. -/
def ngx_close_connection (l : Lifetime S) : Lifetime S :=
  { l with
    session := { l.session with closed := true }, closes := l.closes + 1, destroys := l.destroys + 1 }

/-- `ngx_nsoc_close_connection` on the connection of the session. -/
def close_connection (l : Lifetime S) : Lifetime S :=
  if l.session.noise_on then
    match l.noise_connection with
    | none => l
    | some _ => if ngx_nsoc_shutdown = NGX_AGAIN then l else l.ngx_close_connection
  else l.ngx_close_connection

/-- `ngx_nsoc_finalize_session`. -/
def finalize_session (l : Lifetime S) : Lifetime S :=
  { l with finalized :=
      ⟨l.session.noise_on, l.session.server_noise_connection⟩ :: l.finalized }.close_connection

/-- The end of the checkers `ngx_nsoc_core_generic_phase` and `ngx_nsoc_core_preread_phase`. The
latter sees `NGX_AGAIN` where it waits for more data. -/
def phase_end (l : Lifetime S) (rc : Int) : Lifetime S :=
  if rc = NGX_OK then { l with stage := l.stage.next }
  else if rc = NGX_DECLINED then l
  else if rc = NGX_AGAIN ∨ rc = NGX_DONE then { l with running := false }
  else { l with running := false }.finalize_session

/-- `ngx_nsoc_noiseserver_handshake_handler`. -/
def noiseserver_handshake_handler (l : Lifetime S) (nc : NoiseConnection) : Lifetime S :=
  if ¬ nc.handshaked then l.finalize_session else
  let events := nextAnswer l.session.env.events
  { l with
    running := events.1
    session := { l.session with
      c := { l.session.c with read := { l.session.c.read with timer_set := false } }
      env := { l.session.env with events := events.2 } } }

/-- The call of `nc->handler`. -/
def call_handler (l : Lifetime S) : Result (Lifetime S) :=
  match l.session.server_noise_connection with
  | none => fault
  | some nc =>
    match nc.handler with
    | some .noiseserver_handshake_handler => ok (l.noiseserver_handshake_handler nc)
    | _ => fault

/-- `ngx_nsoc_handshake_handler` on the connection of the session. -/
def handshake_handler (N : NoiseC S) (fuel : Nat) (timedout : Bool) (l : Lifetime S) :
    Result (Lifetime S) :=
  match l.session.server_noise_connection with
  | none => ok l
  | some nc =>
    if nc.connection ≠ l.session.c.id then ok l
    else if timedout then l.call_handler
    else do
      let r ← l.session.handshake N fuel
      if r.1 = NGX_AGAIN then ok { l with session := r.2 }
      else call_handler { l with session := r.2 }

/-- A session as `ngx_nsoc_init_connection` creates it. -/
structure Created (l : Lifetime S) : Prop where
  stage : l.stage = .post_accept
  running : l.running = false
  proxy : l.proxy = none
  finalized : l.finalized = []
  closes : l.closes = 0
  destroys : l.destroys = 0
  opened : l.session.closed = false
  server_noise_connection : l.session.server_noise_connection = none

/-- The states of a session. Of the handlers of the phases that of `NGX_NSOC_PROTECT_PHASE` is
the module's own, the others return what they like; the content handler is the proxy. A closed
connection has no events. -/
inductive Reachable (N : NoiseC S) (conf : KeyConf) : Lifetime S → Prop where
  | created {l : Lifetime S} (hl : l.Created) : Reachable N conf l
  | disturbed {l : Lifetime S} (hl : Reachable N conf l) (hwaits : l.running = false)
      (read write : Event → Event) (ctx : NoiseCtx) (prologue : PrologueData) (mem : Memory)
      (env : Env) :
      Reachable N conf { l with session := l.session.disturb read write ctx prologue mem env }
  | session_handler {l : Lifetime S} (hl : Reachable N conf l) (hopen : l.session.closed = false)
      (hwaits : l.running = false) (hstage : l.stage ≠ .content)
      (hhandler : l.session.c.read.handler = .session_handler) :
      Reachable N conf { l with running := true }
  | empty_phase {l : Lifetime S} (hl : Reachable N conf l) (hruns : l.running = true)
      (hstage : l.stage ≠ .protect ∧ l.stage ≠ .content) :
      Reachable N conf { l with stage := l.stage.next }
  | handler {l : Lifetime S} (hl : Reachable N conf l) (hruns : l.running = true)
      (hstage : l.stage ≠ .protect ∧ l.stage ≠ .content) (c : Connection)
      (hc : c.id = l.session.c.id) (rc : Int) :
      Reachable N conf ({ l with session := { l.session with c } }.phase_end rc)
  | noiseserver_handler {l : Lifetime S} {s : Session S} {alloc : KeyAlloc} {fuel : Nat} {rc : Int}
      (hl : Reachable N conf l) (hruns : l.running = true) (hstage : l.stage = .protect)
      (hcall : l.session.noiseserver_handler N conf alloc fuel = ok (rc, s)) :
      Reachable N conf ({ l with session := s }.phase_end rc)
  | handshake_handler {l l' : Lifetime S} {fuel : Nat} {timedout : Bool} (hl : Reachable N conf l)
      (hopen : l.session.closed = false) (hwaits : l.running = false) (hstage : l.stage = .protect)
      (hevent : l.handshake_handler N fuel timedout = ok l') : Reachable N conf l'
  | nodelay_failed {l : Lifetime S} (hl : Reachable N conf l) (hruns : l.running = true)
      (hstage : l.stage = .content) :
      Reachable N conf ({ l with running := false }.finalize_session)
  | proxy_resolves {l : Lifetime S} (hl : Reachable N conf l) (hruns : l.running = true)
      (hstage : l.stage = .content) : Reachable N conf { l with running := false }
  | proxy_failed {l : Lifetime S} (hl : Reachable N conf l) (hopen : l.session.closed = false)
      (hstage : l.stage = .content) (hproxy : l.proxy = none) :
      Reachable N conf ({ l with running := false }.finalize_session)
  | proxy_handler {l : Lifetime S} (hl : Reachable N conf l) (hopen : l.session.closed = false)
      (hstage : l.stage = .content) (hproxy : l.proxy = none) (us : ngx_nsoc_upstream.Upstream)
      (pscf : ngx_nsoc_proxy.SrvConf) (stream notify preread : Bool) (noise : S)
      (prologue : PrologueData) (mem : Memory) (env : Env) :
      Reachable N conf { l with
        running := false
        proxy := some ((ngx_nsoc_proxy.Proxy.create pscf stream notify preread noise prologue mem
          env).proxy_handler us) }
  | proxy_event {l : Lifetime S} {p : ngx_nsoc_proxy.Proxy S}
      {next : ngx_nsoc_proxy.Call × ngx_nsoc_proxy.Proxy S} (hl : Reachable N conf l)
      (hproxy : l.proxy = some (.waiting, p)) (hevent : ngx_nsoc_proxy.EventStep N p next) :
      Reachable N conf { l with proxy := some next }
  | proxy_call {l : Lifetime S} {us us' : ngx_nsoc_upstream.Upstream} {p : ngx_nsoc_proxy.Proxy S}
      {call : ngx_nsoc_proxy.Call} {next : ngx_nsoc_proxy.Call × ngx_nsoc_proxy.Proxy S}
      (hl : Reachable N conf l) (hproxy : l.proxy = some (call, p)) (hcall : call ≠ .finalize)
      (hstep : ngx_nsoc_proxy.CallStep N us (call, p) us' next) :
      Reachable N conf { l with proxy := some next }
  | proxy_finalize {l : Lifetime S} {us us' : ngx_nsoc_upstream.Upstream}
      {p : ngx_nsoc_proxy.Proxy S} {next : ngx_nsoc_proxy.Call × ngx_nsoc_proxy.Proxy S}
      (hl : Reachable N conf l) (hproxy : l.proxy = some (.finalize, p))
      (hstep : ngx_nsoc_proxy.CallStep N us (.finalize, p) us' next) :
      Reachable N conf ({ l with proxy := some next }.finalize_session)

end Lifetime

end ngx_nsoc
