import NoiseSocket.Handler.Handshake.Leading
import NoiseSocket.Handler.Handshake.Reached
import NoiseSocket.NoiseProtocol.Frame

open Exec Exec.Result

namespace ngx_nsoc

variable {S : Type}

/-- The calls into noise-c, newest first. -/
def calls (trace : List Obs) : List Obs := trace.filter fun o => !o.isRead

/-- One side of a handshake without its socket: `left` is everything of the peer that is still to be read,
however it will arrive. -/
structure Dialogue (S : Type) where
  phase : HandshakePhase
  role : Role
  noise_ctx : NoiseCtx
  msg_num : Nat
  noise : S
  prologue : PrologueData
  mem : Memory
  tx : List UInt8
  left : List UInt8
  handed : List Obs

namespace Dialogue

/-- What a side does next: it waits for more of its peer, goes on, is over with a result, or reads through a
buffer that is not there. -/
inductive Turn (S : Type) where
  | waits
  | next (d : Dialogue S)
  | ended (n : Int) (d : Dialogue S)
  | fault

/-- An endpoint with what a dialogue knows. -/
def endpoint (d : Dialogue S) : Endpoint S :=
  { Endpoint.create d.noise_ctx 0 d.role false d.noise d.prologue d.mem (.quiet [] false) with
    nc := { create_connection 0 d.noise_ctx 0 d.role false with msg_num := d.msg_num }
    trace := d.handed }

/-- The noise-c objects are set up. -/
def start (N : NoiseC S) (d : Dialogue S) : Turn S :=
  match ngx_noise_protocol.init_handshake N d.endpoint with
  | ok (n, v) =>
    if n = NGX_ERROR then .ended NGX_ERROR { d with noise := v.noise, handed := v.trace }
    else .next { d with
      phase := .process_phase
      noise := (N.handshakestate_start v.noise).2
      handed := v.trace }
  | _ => .fault

/-- The header of the first message. -/
def read_header (N : NoiseC S) (d : Dialogue S) : Turn S :=
  match d.left with
  | n0 :: n1 :: rest =>
    if be16 n0 n1 ≠ NGX_NSOC_1MSG_NEG_DATA_SIZE then .ended NGX_ERROR d else
    match FirstHdr.ofBytes rest with
    | none => .waits
    | some header =>
      if header.version_id ≠ NGX_NSOC_VERSION_ID then .ended NGX_ERROR { d with tx := d.tx ++ Endpoint.err_message }
      else start N { d with
        prologue := { d.prologue with header }
        left := rest.drop NGX_NSOC_1MSG_NEG_DATA_SIZE }
  | _ => .waits

/-- noise-c has made a message. -/
def written (N : NoiseC S) (msg_num : Nat) (d : Dialogue S) : Dialogue S :=
  { d with
    noise := (N.handshakestate_write_message d.noise).2
    msg_num
    handed := .write_message d.msg_num (N.handshakestate_write_message d.noise).1.1 :: d.handed }

/-- A message is made and sent. -/
def write (N : NoiseC S) (d : Dialogue S) : Turn S :=
  match d.endpoint.message_header with
  | none => .ended NGX_ERROR d
  | some (header, msg_num) =>
    let call := N.handshakestate_write_message d.noise
    if call.1.1 ≠ NOISE_ERROR_NONE then .ended call.1.1 (d.written N msg_num)
    else .next { d.written N msg_num with
      tx := d.tx ++ (header ++ Endpoint.lenBytes call.1.2.length ++ call.1.2) }

/-- The negotiation part of a message, on the bytes of the peer alone. -/
inductive Front where
  | short
  | refused
  | behind (rest : List UInt8)

/-- The first message has its negotiation part in the phase before; that of the others is empty. -/
def negotiation_part (msg_num : Nat) (left : List UInt8) : Front :=
  if msg_num = NGX_NSOC_1MSG then .behind left
  else if msg_num = NGX_NSOC_2MSG_OK ∨ msg_num = NGX_NSOC_3MSG then
    match left with
    | n0 :: n1 :: rest => if be16 n0 n1 = 0 then .behind rest else .refused
    | _ => .short
  else .refused

/-- The noise part of a message and what comes behind it. -/
def noise_part (left : List UInt8) : Option (List UInt8 × List UInt8) :=
  match left with
  | m0 :: m1 :: rest => if be16 m0 m1 ≤ rest.length then some (rest.take (be16 m0 m1), rest.drop (be16 m0 m1)) else none
  | _ => none

/-- noise-c has been given a message. -/
def given (message : List UInt8) (call : Nat × S) (d : Dialogue S) : Dialogue S :=
  { d with noise := call.2, handed := .read_message message call.1 :: d.handed }

/-- A message is read. -/
def read (N : NoiseC S) (d : Dialogue S) : Turn S :=
  match negotiation_part d.msg_num d.left with
  | .short => .waits
  | .refused => .ended NGX_ERROR d
  | .behind rest =>
    match noise_part rest with
    | none => .waits
    | some ([], _) => .fault
    | some (message, left) =>
      let call := N.handshakestate_read_message message d.noise
      if call.1 ≠ NOISE_ERROR_NONE then .ended NGX_ERROR (d.given message call)
      else .next { d.given message call with msg_num := Endpoint.next_num d.msg_num, left }

/-- The handshake ends. -/
def split (N : NoiseC S) (d : Dialogue S) : Turn S :=
  let call := N.handshakestate_split d.noise
  if call.1 ≠ NOISE_ERROR_NONE then .ended NGX_ERROR { d with noise := call.2 } else
  let free := N.handshakestate_free call.2
  if free.1 ≠ NOISE_ERROR_NONE then .ended NGX_ERROR { d with noise := free.2 }
  else .ended NGX_OK { d with noise := free.2 }

/-- What a side does next, given everything that its peer will ever send. -/
def turn (N : NoiseC S) (d : Dialogue S) : Turn S :=
  match d.phase with
  | .none_phase =>
    match d.role with
    | .client => d.start N
    | .server => d.read_header N
  | .process_phase =>
    if N.handshakestate_get_action d.noise = NOISE_ACTION_WRITE_MESSAGE then d.write N
    else if N.handshakestate_get_action d.noise = NOISE_ACTION_READ_MESSAGE then d.read N
    else if N.handshakestate_get_action d.noise = NOISE_ACTION_SPLIT then d.split N
    else .ended NGX_ERROR d
  | .end_phase => .fault

/-- What comes of a dialogue: a result, or a side that waits for ever. -/
inductive Comes (N : NoiseC S) : Dialogue S → Option Int × Dialogue S → Prop where
  | waits {d : Dialogue S} (hturn : d.turn N = .waits) : Comes N d (none, d)
  | ended {d e : Dialogue S} {n : Int} (hturn : d.turn N = .ended n e) : Comes N d (some n, e)
  | next {d e : Dialogue S} {r : Option Int × Dialogue S} (hturn : d.turn N = .next e) (hrest : Comes N e r) :
      Comes N d r

/-- The bytes of the peer decide what comes of it. -/
theorem Comes.unique {N : NoiseC S} {d : Dialogue S} {r r' : Option Int × Dialogue S} (h : Comes N d r)
    (h' : Comes N d r') : r = r' := by
  induction h with
  | waits hturn =>
    cases h' with
    | waits _ => rfl
    | ended hturn' | next hturn' _ =>
      rw [hturn] at hturn'
      cases hturn'
  | ended hturn =>
    cases h' with
    | ended hturn' =>
      rw [hturn] at hturn'
      cases hturn'
      rfl
    | waits hturn' | next hturn' _ =>
      rw [hturn] at hturn'
      cases hturn'
  | next hturn _ ih =>
    cases h' with
    | next hturn' hrest' =>
      rw [hturn] at hturn'
      cases hturn'
      exact ih hrest'
    | waits hturn' | ended hturn' =>
      rw [hturn] at hturn'
      cases hturn'

/-- One dialogue goes on into another. -/
inductive Onward (N : NoiseC S) (d : Dialogue S) : Dialogue S → Prop where
  | refl : Onward N d d
  | next {e f : Dialogue S} (h : Onward N d e) (hturn : e.turn N = .next f) : Onward N d f

/-- A dialogue that something comes of does not fault on the way. -/
theorem Onward.ne_fault {N : NoiseC S} {d e : Dialogue S} {r : Option Int × Dialogue S} (h : Onward N d e)
    (hd : Comes N d r) : e.turn N ≠ .fault := by
  have hcomes : Comes N e r := by
    induction h with
    | refl => exact hd
    | next _ hturn ih =>
      cases ih with
      | waits hturn' | ended hturn' =>
        rw [hturn] at hturn'
        cases hturn'
      | next hturn' hrest =>
        rw [hturn] at hturn'
        cases hturn'
        exact hrest
  intro hfault
  cases hcomes with
  | waits hturn | ended hturn | next hturn _ =>
    rw [hfault] at hturn
    cases hturn

theorem Onward.comes {N : NoiseC S} {d e : Dialogue S} {r : Option Int × Dialogue S} (h : Onward N d e)
    (hend : Comes N e r) : Comes N d r := by
  induction h with
  | refl => exact hend
  | next _ hturn ih => exact ih (.next hturn hend)

end Dialogue

namespace Endpoint

/-- The dialogue that an endpoint is in, with what its peer has yet to say. -/
def dialogue (w : Endpoint S) (left : List UInt8) : Dialogue S where
  phase := w.nc.handshake_phase
  role := w.nc.noise_role
  noise_ctx := w.nc.noise_ctx
  msg_num := w.nc.msg_num
  noise := w.noise
  prologue := w.prologue
  mem := w.mem
  tx := w.env.tx
  left := left
  handed := calls w.trace

end Endpoint

end ngx_nsoc
