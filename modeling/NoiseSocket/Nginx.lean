import NoiseSocket.Lib.Socket

namespace ngx_nsoc

@[simp] abbrev NGX_OK : Int := 0
@[simp] abbrev NGX_ERROR : Int := -1
@[simp] abbrev NGX_AGAIN : Int := -2
@[simp] abbrev NGX_BUSY : Int := -3
@[simp] abbrev NGX_DONE : Int := -4
@[simp] abbrev NGX_DECLINED : Int := -5

/-- The event handlers this module installs on a connection. -/
inductive EventHandler where
  | empty_handler
  | session_handler
  | handshake_handler
  | proxy_connect_handler
  | proxy_downstream_handler
  | proxy_upstream_handler
deriving DecidableEq, Repr

/-- `ngx_event_t`, with a timer that is armed or not. -/
structure Event where
  handler : EventHandler
  ready : Bool
  eof : Bool
  error : Bool
  delayed : Bool
  timedout : Bool
  timer_set : Bool
deriving DecidableEq, Repr

/-- Which set of `recv`, `send`, `recv_chain`, `send_chain` a connection uses. -/
inductive Transport where
  | plain
  | noise
deriving DecidableEq, Repr

/-- `ngx_connection_t`; `id` stands for the address of the structure. -/
structure Connection where
  id : Nat
  read : Event
  write : Event
  transport : Transport
deriving DecidableEq, Repr

def Event.fresh : Event where
  handler := .empty_handler
  ready := false
  eof := false
  error := false
  delayed := false
  timedout := false
  timer_set := false

/-- A connection as the event core hands it out. -/
def Connection.fresh (id : Nat) : Connection where
  id := id
  read := .fresh
  write := .fresh
  transport := .plain

/-- What the kernel answers to a `send`: a byte count, or an error code. -/
inductive Sent where
  | count (limit : Nat)
  | again
  | error
deriving DecidableEq, Repr

/-- Answers of the operating system and of nginx itself, in the order in which
they will be asked for. Past the end of `sends` everything offered is taken;
past the end of `events` and `allocs` every request succeeds. -/
structure Env where
  rx : Net.Incoming
  sends : List Sent
  events : List Bool
  allocs : List Bool
  tx : List UInt8
deriving DecidableEq, Repr

/-- An undisturbed environment that will deliver `items`. -/
def Env.quiet (items : List Net.Item) (closed : Bool) : Env where
  rx := ⟨items, closed⟩
  sends := []
  events := []
  allocs := []
  tx := []

/-- The next answer of a script of successes and failures. -/
def nextAnswer : List Bool → Bool × List Bool
  | [] => (true, [])
  | answer :: rest => (answer, rest)

end ngx_nsoc
