import NoiseSocket.Handler.Length

open Exec Exec.Result

namespace ngx_nsoc

variable {S : Type}

namespace Endpoint

/-- The part of `ngx_nsoc_read_handshake_data` behind the buffer's creation. -/
def fill_buf (w : Endpoint S) (part : Part) (b : Buf) : Int × Endpoint S :=
  let w := w.setBuf (some b)
  let size := b.room
  if size = 0 then (NGX_ERROR, w)
  else if w.c.read.eof then (NGX_OK, w)
  else
    let (n, bytes, w) := w.ngx_recv part size
    if 0 ≤ n then
      (n, (w.setBuf (some { b with bytes := b.bytes ++ bytes })).setReadTimer false)
    else (n, w)

/-- `ngx_nsoc_read_handshake_data`. -/
def read_handshake_data (w : Endpoint S) (part : Part) (buffer_size : Nat) : Int × Endpoint S :=
  match w.nc.buf with
  | some b => w.fill_buf part b
  | none =>
    let (granted, w) := w.ngx_alloc
    if granted then w.fill_buf part ⟨[], 0, buffer_size⟩ else (NGX_ERROR, w)

/-- The exit of both readers on a read that would block. -/
def read_again (w : Endpoint S) : Int × Endpoint S :=
  let (rc, w) := (w.setLast NOISE_ACTION_READ_MESSAGE).ngx_handle_event
  if rc ≠ NGX_OK then (NGX_ERROR, w) else (NGX_AGAIN, w.setReadTimer true)

/-- The exit of both readers behind the loop: `n` bytes of a part of `size` came
in by the last read. -/
def read_finish (w : Endpoint S) (n : Int) (size : Nat) : Int × Endpoint S :=
  if n < size then
    let (rc, w) := (w.setLast NOISE_ACTION_READ_MESSAGE).ngx_handle_event
    if rc ≠ NGX_OK then (NGX_ERROR, w) else (NGX_AGAIN, w)
  else (n, w)

/-- What both readers do once the length `size` of their part is known. -/
def read_part (w : Endpoint S) (part : Part) (size : Nat) : Int × Endpoint S :=
  let (n, w) := if size ≠ 0 then w.read_handshake_data part size else (0, w)
  if 0 ≤ n then w.read_finish n size
  else if n = NGX_AGAIN then w.read_again
  else (n, w)

/-- One pass of the loop of `ngx_nsoc_read_negotiation`. -/
def read_negotiation_body (fuel true_len : Nat) (w : Endpoint S) :
    Result (ControlFlow (Endpoint S) (Int × Endpoint S)) := do
  match w.nc.neg_data with
  | .known size => ok (.done (w.read_part (.neg_data size) size))
  | _ =>
    let (n, w) ← (w.setHandlers .handshake_handler).read_negotiation_data_len fuel
    if n = NGX_AGAIN then ok (.done w.read_again)
    else if n ≠ NGX_ERROR then
      let w := w.log (.negotiation true_len w.nc.neg_data.recv_size)
      if w.nc.neg_data.recv_size = some true_len then ok (.cont w) else ok (.done (NGX_ERROR, w))
    else ok (.done (n, w))

/-- `ngx_nsoc_read_negotiation`. -/
def read_negotiation (fuel true_len : Nat) (w : Endpoint S) : Result (Int × Endpoint S) :=
  loop (read_negotiation_body fuel true_len) fuel w

/-- One pass of the loop of `ngx_nsoc_read_noise_msg`. -/
def read_noise_msg_body (fuel : Nat) (w : Endpoint S) :
    Result (ControlFlow (Endpoint S) (Int × Endpoint S)) := do
  match w.nc.noise_msg with
  | .known size => ok (.done (w.read_part (.msg_data size) size))
  | _ =>
    let (n, w) ← (w.setHandlers .handshake_handler).read_noise_msg_len fuel
    if n = NGX_AGAIN then ok (.done w.read_again)
    else if n ≠ NGX_ERROR then ok (.cont w)
    else ok (.done (n, w))

/-- `ngx_nsoc_read_noise_msg`. -/
def read_noise_msg (fuel : Nat) (w : Endpoint S) : Result (Int × Endpoint S) :=
  loop (read_noise_msg_body fuel) fuel w

/-- The bytes in front of the noise message of message `msg_num`, and the value
`msg_num` takes. -/
def message_header (w : Endpoint S) : Option (List UInt8 × Nat) :=
  if w.nc.msg_num = NGX_NSOC_1MSG then some (w.prologue.headerBytes, NGX_NSOC_2MSG_OK)
  else if w.nc.msg_num = NGX_NSOC_2MSG_OK then
    some (hostBytes (swapw (UInt16.ofNat NGX_NSOC_2MSG_NEG_DATA_OK_SIZE)), NGX_NSOC_3MSG)
  else if w.nc.msg_num = NGX_NSOC_3MSG then
    some (hostBytes (swapw (UInt16.ofNat NGX_NSOC_3MSG_NEG_DATA_SIZE)), NGX_NSOC_1MSG)
  else if w.nc.msg_num = NGX_NSOC_2MSG_FB then
    some (hostBytes (swapw (UInt16.ofNat NGX_NSOC_2MSG_NEG_DATA_ERR_SIZE)) ++
      hostBytes NGX_NSOC_VERSION_ID ++ [0x01], NGX_NSOC_1MSG)
  else none

/-- The whole of the message `NGX_NSOC_2MSG_ERR`. -/
def err_message : List UInt8 :=
  hostBytes (swapw (UInt16.ofNat NGX_NSOC_2MSG_NEG_DATA_ERR_SIZE)) ++
    hostBytes NGX_NSOC_VERSION_ID ++ [0xFF] ++ hostBytes 0

/-- The room `ngx_palloc` gives a message whose negotiation data has `size` bytes. -/
def message_room (size : Nat) : Nat :=
  size + NOISE_PROTOCOL_MAX_HANDSHAKE_LEN + 2 * NGX_NSOC_LEN_FIELD_SIZE

/-- The low two bytes of a length, in network order. -/
def lenBytes (n : Nat) : List UInt8 := [UInt8.ofNat (n / 256), UInt8.ofNat n]

/-- The call of `noise_handshakestate_write_message` and what follows it, with
`header` in front of the message. -/
def write_noise_message (N : NoiseC S) (header : List UInt8) (w : Endpoint S) :
    Int × Option Buf × Endpoint S :=
  let call := N.handshakestate_write_message w.noise
  let n := call.1.1
  let message := call.1.2
  let w := { w with noise := call.2 }
  if n ≠ NOISE_ERROR_NONE then (n, none, w)
  else
    (NGX_OK, some ⟨header ++ lenBytes message.length ++ message, 0,
      message_room (header.length - NGX_NSOC_LEN_FIELD_SIZE)⟩, w)

/-- `ngx_nsoc_handshake_start_action_write_message`: the return value, the
buffer handed back, and the state. The check of the second allocation is
missing in the source. -/
def handshake_start_action_write_message (N : NoiseC S) (w : Endpoint S) :
    Result (Int × Option Buf × Endpoint S) :=
  let (granted, w) := w.ngx_alloc
  if ¬ granted then ok (NGX_ERROR, none, w)
  else if w.nc.msg_num = NGX_NSOC_2MSG_ERR then
    let (granted, w) := w.ngx_alloc
    if ¬ granted then fault
    else
      ok (NGX_OK, some ⟨err_message, 0, message_room NGX_NSOC_2MSG_NEG_DATA_ERR_SIZE⟩,
        w.setMsgNum NGX_NSOC_1MSG)
  else
    match w.message_header with
    | none => ok (NGX_ERROR, none, w)
    | some (header, msg_num) =>
      let (granted, w) := w.ngx_alloc
      if ¬ granted then fault
      else
        let code := (N.handshakestate_write_message w.noise).1.1
        ok (write_noise_message N header
          ((w.log (.write_message w.nc.msg_num code)).setMsgNum msg_num))

/-- The loop of `ngx_nsoc_handshake_start_action_read_message` that receives the
negotiation part leaves with `n`; or the function returns. -/
inductive ReadExit (S : Type) where
  | leave (n : Int) (w : Endpoint S)
  | ret (n : Int) (w : Endpoint S)

/-- One pass of that loop; `size` is `none` before the first read. -/
def read_message_body (fuel : Nat) :
    Option Nat × Endpoint S → Result (ControlFlow (Option Nat × Endpoint S) (ReadExit S))
  | (size, w) =>
    let read (size : Nat) : Result (ControlFlow (Option Nat × Endpoint S) (ReadExit S)) := do
      let (n, w) ← w.read_negotiation fuel size
      if n < 0 then ok (.done (.leave n w)) else ok (.cont (some size, w))
    if w.nc.msg_num = NGX_NSOC_1MSG then
      ok (.done (.leave NGX_OK (w.setMsgNum NGX_NSOC_2MSG_OK)))
    else if w.nc.msg_num = NGX_NSOC_2MSG_OK then
      match size with
      | none => read NGX_NSOC_2MSG_NEG_DATA_OK_SIZE
      | some size =>
        if w.nc.neg_data.recv_size = some NGX_NSOC_2MSG_NEG_DATA_OK_SIZE then
          ok (.done (.leave NGX_OK (w.setMsgNum NGX_NSOC_3MSG)))
        else
          match w.nc.buf.bind fun b => (b.bytes.drop b.pos)[2]? with
          | none => fault
          | some handshake_status =>
            if handshake_status = 0xFF ∨ handshake_status = 1 then ok (.done (.ret NGX_ERROR w))
            else read size
    else if w.nc.msg_num = NGX_NSOC_3MSG then
      match size with
      | none => read NGX_NSOC_3MSG_NEG_DATA_SIZE
      | some _ => ok (.done (.leave NGX_OK (w.setMsgNum NGX_NSOC_1MSG)))
    else ok (.done (.ret NGX_ERROR w))

/-- The state behind a message that noise-c has accepted. -/
def message_done (w : Endpoint S) : Endpoint S :=
  { w with nc := { w.nc with
    buf := none, last := 0, noise_msg := .unset, neg_data := .unset } }

/-- `ngx_nsoc_handshake_start_action_read_message` from the noise part on. -/
def read_message_noise (N : NoiseC S) (fuel : Nat) (w : Endpoint S) :
    Result (Int × Endpoint S) := do
  let (n, w) ← w.read_noise_msg fuel
  if n < 0 then ok (n, w) else
  match w.nc.buf with
  | none => fault
  | some b =>
    let message := b.bytes.take (w.nc.noise_msg.recv_size.getD 0)
    let (n, noise) := N.handshakestate_read_message message w.noise
    let w := { w with noise, trace := .read_message message n :: w.trace }
    if n ≠ NOISE_ERROR_NONE then ok (NGX_ERROR, w) else ok (NGX_OK, w.message_done)

/-- `ngx_nsoc_handshake_start_action_read_message`. -/
def handshake_start_action_read_message (N : NoiseC S) (fuel : Nat) (w : Endpoint S) :
    Result (Int × Endpoint S) := do
  match ← loop (read_message_body fuel) fuel (none, w) with
  | .ret n w => ok (n, w)
  | .leave n w =>
    let w := w.setBuf none
    if n < 0 then ok (n, w) else w.read_message_noise N fuel

end Endpoint

end ngx_nsoc
