import NoiseSocket.Handler.Message
import NoiseSocket.NoiseC.Pattern
import NoiseSocket.NoiseProtocol.Init

open Exec Exec.Result

namespace ngx_nsoc

variable {S : Type}

namespace Endpoint

/-- The exit of both write paths when the socket did not take all of `b`. -/
def write_again (w : Endpoint S) (b : Buf) : Int × Endpoint S :=
  let (rc, w) := (w.setWriteReady false).ngx_handle_event
  if rc ≠ NGX_OK then (NGX_ERROR, w)
  else
    (NGX_AGAIN, (((w.setWriteTimer true).setReadTimer false).setBuf (some b)).setLast
      NOISE_ACTION_WRITE_MESSAGE)

/-- The reply of the server to a first message of another version. -/
def version_error (N : NoiseC S) (w : Endpoint S) : Result (Int × Endpoint S) := do
  let (n, b, w) ← (w.setMsgNum NGX_NSOC_2MSG_ERR).handshake_start_action_write_message N
  if n ≠ NGX_OK then ok (n, w) else
  match b with
  | none => fault
  | some b =>
    let bytes := b.bytes.drop b.pos
    let (n, w) := w.ngx_send bytes
    let w := w.setHandlers .handshake_handler
    if n = NGX_AGAIN ∨ n < bytes.length then ok (w.write_again b)
    else ok (NGX_ERROR, (w.setReadReady false).setBuf none)

/-- The end of the phase `NGX_NSOC_HANDSHAKE_NONE_PHASE`, common to both roles:
`cont` falls through to the next phase. -/
def start_handshake (N : NoiseC S) (w : Endpoint S) :
    Result (ControlFlow (Endpoint S) (Int × Endpoint S)) := do
  let (n, w) ← ngx_noise_protocol.init_handshake N w
  let w := w.setBuf none
  if n = NGX_ERROR then ok (.done (n, w)) else
  -- the code of `noise_handshakestate_start` is positive, so the test against
  -- `NGX_ERROR` never fires
  ok (.cont { w with
    noise := (N.handshakestate_start w.noise).2
    nc := { w.nc with handshake_phase := .process_phase, last := 0 } })

/-- The phase `NGX_NSOC_HANDSHAKE_NONE_PHASE`. -/
def none_phase (N : NoiseC S) (fuel : Nat) (w : Endpoint S) :
    Result (ControlFlow (Endpoint S) (Int × Endpoint S)) := do
  match w.nc.noise_role with
  | .client => w.start_handshake N
  | .server =>
    let (n, w) ← w.read_negotiation fuel NGX_NSOC_1MSG_NEG_DATA_SIZE
    if n ≤ 0 then ok (.done (n, w)) else
    match w.nc.buf.bind fun b => FirstHdr.ofBytes b.bytes with
    | none => fault
    | some first_hdr =>
      if first_hdr.version_id ≠ NGX_NSOC_VERSION_ID then
        let (n, w) ← w.version_error N
        ok (.done (n, w))
      else
        start_handshake N { w with prologue := { w.prologue with header := first_hdr } }

/-- The write action from the call of `c->send` on; `b` is the message. -/
def send_action (N : NoiseC S) (b : Buf) (w : Endpoint S) :
    ControlFlow (Endpoint S) (Int × Endpoint S) :=
  let w := w.setLast 0
  let bytes := b.bytes.drop b.pos
  let (n, w) := w.ngx_send bytes
  let w := w.setHandlers .handshake_handler
  if n = NGX_AGAIN ∨ n < bytes.length then .done (w.write_again b)
  else
    let w := (w.setReadReady false).setBuf none
    if N.handshakestate_get_action w.noise = NOISE_ACTION_READ_MESSAGE then
      let (rc, w) := (w.setReadReady false).ngx_handle_event
      if rc ≠ NGX_OK then .done (NGX_ERROR, w)
      else .done (NGX_AGAIN, (w.setReadTimer true).setWriteTimer false)
    else .cont (w.setReadTimer false)

/-- The write action of the phase `NGX_NSOC_HANDSHAKE_PROCESS_PHASE`. -/
def write_action (N : NoiseC S) (w : Endpoint S) :
    Result (ControlFlow (Endpoint S) (Int × Endpoint S)) := do
  let (n, b, w) ←
    if w.nc.last = 0 then w.handshake_start_action_write_message N
    else ok (NGX_OK, w.nc.buf, w)
  if n ≠ NGX_OK then ok (.done (n, w)) else
  match b with
  | none => fault
  | some b => ok (w.send_action N b)

/-- The split action: the handshake ends and the transport changes. -/
def split_action (N : NoiseC S) (w : Endpoint S) : Int × Endpoint S :=
  let (n, noise) := N.handshakestate_split w.noise
  let w := { w with noise }
  if n ≠ NOISE_ERROR_NONE then (NGX_ERROR, w) else
  let (n, noise) := N.handshakestate_free w.noise
  let w := { w with noise }
  if n ≠ NOISE_ERROR_NONE then (NGX_ERROR, w) else
  (NGX_OK, { w with
    nc := { w.nc with handshake_phase := .end_phase, buf := none, handshaked := true }
    c := { w.c with transport := .noise } })

/-- What is to be done next: the action that was interrupted, or the one that
noise-c asks for. -/
def action (N : NoiseC S) (w : Endpoint S) : Int :=
  if w.nc.last ≠ 0 then w.nc.last else N.handshakestate_get_action w.noise

/-- The phase `NGX_NSOC_HANDSHAKE_PROCESS_PHASE`. -/
def process_phase (N : NoiseC S) (fuel : Nat) (w : Endpoint S) :
    Result (ControlFlow (Endpoint S) (Int × Endpoint S)) := do
  if w.action N = NOISE_ACTION_WRITE_MESSAGE then w.write_action N
  else if w.action N = NOISE_ACTION_READ_MESSAGE then
    let (n, w) ← (w.setLast 0).handshake_start_action_read_message N fuel
    if n ≠ NGX_OK then ok (.done (n, w)) else ok (.cont w)
  else if w.action N = NOISE_ACTION_SPLIT then ok (.done (w.split_action N))
  else ok (.done (NGX_ERROR, w))

/-- One pass of the loop of `ngx_nsoc_do_handshake_process`. -/
def do_handshake_process_body (N : NoiseC S) (fuel : Nat) (w : Endpoint S) :
    Result (ControlFlow (Endpoint S) (Int × Endpoint S)) := do
  match w.nc.handshake_phase with
  | .none_phase =>
    match ← w.none_phase N fuel with
    | .done r => ok (.done r)
    | .cont w => w.process_phase N fuel
  | .process_phase => w.process_phase N fuel
  | .end_phase => ok (.cont w)

/-- `ngx_nsoc_do_handshake_process`. -/
def do_handshake_process (N : NoiseC S) (fuel : Nat) (w : Endpoint S) :
    Result (Int × Endpoint S) :=
  loop (do_handshake_process_body N fuel) fuel w

end Endpoint

/-- `ngx_nsoc_create_connection`, as far as the noise connection goes: memory is
zeroed, the lengths are unset. -/
def create_connection (connection : Nat) (ctx : NoiseCtx) (buffer_size : Nat) (role : Role)
    (buffer : Bool) : NoiseConnection where
  connection := connection
  noise_ctx := ctx
  handshake_phase := .none_phase
  noise_role := role
  msg_num := NGX_NSOC_1MSG
  last := 0
  buf := none
  buffer_size := buffer_size
  send_buf := none
  recv_buf := none
  to_send := 0
  neg_data := .unset
  noise_msg := .unset
  handler := none
  handshaked := false
  buffer := buffer

/-- A connection for which `ngx_nsoc_create_connection` has just run: it is open
and in clear text, and nothing of the handshake has happened. -/
structure Endpoint.Fresh (w : Endpoint S) : Prop where
  nc : ∃ ctx buffer_size role buffer,
    w.nc = create_connection w.c.id ctx buffer_size role buffer
  eof : w.c.read.eof = false
  transport : w.c.transport = .plain
  trace : w.trace = []

/-- The endpoint that a module creates on a connection of its own. -/
def Endpoint.create (ctx : NoiseCtx) (buffer_size : Nat) (role : Role) (buffer : Bool) (noise : S)
    (prologue : PrologueData) (mem : Memory) (env : Env) : Endpoint S where
  c := .fresh 0
  nc := create_connection 0 ctx buffer_size role buffer
  noise := noise
  prologue := prologue
  mem := mem
  env := env
  trace := []

theorem Endpoint.fresh_create (ctx : NoiseCtx) (buffer_size : Nat) (role : Role) (buffer : Bool)
    (noise : S) (prologue : PrologueData) (mem : Memory) (env : Env) :
    (Endpoint.create ctx buffer_size role buffer noise prologue mem env).Fresh :=
  ⟨⟨ctx, buffer_size, role, buffer, rfl⟩, rfl, rfl, rfl⟩

/-- The prologue that `ngx_nsoc_proxy_set_noiselink` fills in, `NoiseSocketInit1`
and the header of the first message, with the ids of noise-c. -/
def proxy_prologue : PrologueData where
  strPrologue := [78, 111, 105, 115, 101, 83, 111, 99, 107, 101, 116, 73, 110, 105, 116, 49]
  header_len := swapw (UInt16.ofNat NGX_NSOC_1MSG_NEG_DATA_SIZE)
  header := { version_id := NGX_NSOC_VERSION_ID, dh_id := 1, cipher_id := 2, hash_id := 2,
              pattern_id := 9 }

/-- The prologue of a server before the first message has come in. -/
def server_prologue : PrologueData :=
  { proxy_prologue with header := ⟨0, 0, 0, 0, 0⟩ }

/-- A server of the pattern XX, on a connection that will deliver `items`. -/
def Endpoint.pattern_server (items : List Net.Item) (closed : Bool) : Endpoint Pattern :=
  .create ⟨some ⟨0, 1⟩, none⟩ NOISE_PROTOCOL_PAYLOAD_SIZE .server false ⟨.responder, 0⟩
    server_prologue ⟨fun _ => 0, []⟩ (.quiet items closed)

end ngx_nsoc
