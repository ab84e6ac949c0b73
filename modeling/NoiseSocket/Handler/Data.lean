import NoiseSocket.Handler.Message

open Exec Exec.Result

namespace ngx_nsoc

variable {S : Type}

namespace Endpoint

def setRecvBuf (w : Endpoint S) (recv_buf : Option RawBuf) : Endpoint S :=
  { w with nc := { w.nc with recv_buf } }

def setReadError (w : Endpoint S) : Endpoint S :=
  { w with c := { w.c with read := { w.c.read with error := true } } }

/-- `ngx_recv(c, addr, size)` into memory. -/
def recv_at (w : Endpoint S) (part : Part) (addr size : Nat) : Int × Endpoint S :=
  let r := w.ngx_recv part size
  (r.1, { r.2.2 with mem := r.2.2.mem.write addr r.2.1 })

/-- The frame is over: `nc->recv_buf` and the length are forgotten. -/
def end_frame (w : Endpoint S) : Endpoint S :=
  { w with nc := { w.nc with recv_buf := none, noise_msg := .unset } }

/-- A whole frame of `len` bytes is at `start`: it is decrypted in place, and its first
two bytes are the length of the payload. -/
def recv_frame (N : NoiseC S) (w : Endpoint S) (start len size : Nat) : Int × Endpoint S :=
  let call := N.cipherstate_decrypt (w.mem.read start len) w.noise
  let w := { w with noise := call.2, mem := w.mem.write start call.1.2 }
  if call.1.1 ≠ NOISE_ERROR_NONE then (NGX_ERROR, w.setReadError.end_frame)
  else
    let plain_data_size := be16 (w.mem.byte start) (w.mem.byte (start + 1))
    if size < plain_data_size then (NGX_ERROR, w)
    else (plain_data_size, ((w.setReadReady true).end_frame).setLast 0)

/-- One pass of the loop of `ngx_nsoc_recv`. -/
def recv_body (N : NoiseC S) (size : Nat) (w : Endpoint S) :
    Result (ControlFlow (Endpoint S) (Int × Endpoint S)) :=
  match w.nc.recv_buf with
  | none => fault
  | some b =>
    let len := w.nc.noise_msg.recv_size.getD 0
    let r := w.recv_at (.msg_data len) b.pos (b.stop - b.pos)
    if 0 < r.1 then
      let b := { b with pos := b.pos + r.1.toNat }
      let w := r.2.setRecvBuf (some b)
      if b.pos - b.start = len then ok (.done (w.recv_frame N b.start len size)) else ok (.cont w)
    else
      let w := if r.1 ≠ NGX_AGAIN then r.2.end_frame else r.2
      ok (.done (r.1, w.setLast r.1))

/-- `ngx_nsoc_recv(c, buf, size)`. -/
def recv (N : NoiseC S) (fuel : Nat) (w : Endpoint S) (buf size : Nat) :
    Result (Int × Endpoint S) :=
  if w.nc.connection ≠ w.c.id then ok (NGX_ERROR, w)
  else if w.nc.last = NGX_ERROR then ok (NGX_ERROR, w.setReadError)
  else
    match w.nc.noise_msg with
    | .known _ => loop (recv_body N size) fuel w
    | _ => do
      let r ← w.read_noise_msg_len fuel
      if r.1 ≠ NGX_OK then ok r else
      match r.2.nc.noise_msg.recv_size with
      | none => ok (NGX_AGAIN, r.2)
      | some len =>
        if buf = 0 then ok (NGX_ERROR, r.2)
        else if ¬ r.2.ngx_alloc.1 then ok (NGX_ERROR, r.2.ngx_alloc.2)
        else
          let start := buf + NGX_NSOC_LEN_FIELD_SIZE
          loop (recv_body N size) fuel
            (r.2.ngx_alloc.2.setRecvBuf (some ⟨start, start, start, start + len⟩))

def setSend (w : Endpoint S) (send_buf : Option RawBuf) (to_send : Nat) : Endpoint S :=
  { w with nc := { w.nc with send_buf, to_send } }

/-- One pass of the loop of `ngx_nsoc_write`. -/
def write_body (size : Nat) :
    RawBuf × Endpoint S → Result (ControlFlow (RawBuf × Endpoint S) (Int × Endpoint S))
  | (b, w) =>
    let r := w.ngx_send (w.mem.read b.pos (b.last - b.pos))
    if 0 < r.1 then
      let b := { b with pos := b.pos + r.1.toNat }
      if b.pos = b.last then ok (.done (size, r.2.setSend none 0)) else ok (.cont (b, r.2))
    else ok (.done r)

/-- The part of `ngx_nsoc_write` that seals a payload in place: the buffer that is to go
out, if there is one. -/
def write_frame (N : NoiseC S) (w : Endpoint S) (data data_size : Nat) :
    Option RawBuf × Endpoint S :=
  let granted := w.ngx_alloc
  if ¬ granted.1 then (none, granted.2) else
  let pos := data + NGX_NSOC_LEN_FIELD_SIZE
  let mem := granted.2.mem.write pos (lenBytes data_size)
  let call := N.cipherstate_encrypt (mem.read pos (data_size + NGX_NSOC_LEN_FIELD_SIZE)) w.noise
  let w := { granted.2 with mem, noise := call.2 }
  if call.1.1 ≠ NOISE_ERROR_NONE then (none, w.setSend none 0)
  else
    let sealed := call.1.2
    let mem := (mem.write pos sealed).write data (lenBytes sealed.length)
    (some ⟨data, data, pos + sealed.length,
        pos + data_size + NOISE_PROTOCOL_MAC_DATA_SIZE + NGX_NSOC_LEN_FIELD_SIZE⟩,
      { w with mem, nc := { w.nc with to_send := sealed.length + NGX_NSOC_LEN_FIELD_SIZE } })

/-- `ngx_nsoc_write(c, data, size)`. The buffer of a frame is not kept in
`nc->send_buf`. -/
def write (N : NoiseC S) (fuel : Nat) (w : Endpoint S) (data size : Nat) :
    Result (Int × Endpoint S) :=
  if data = 0 ∨ size < 2 * NGX_NSOC_LEN_FIELD_SIZE then ok (NGX_ERROR, w)
  else if w.nc.connection ≠ w.c.id then ok (NGX_ERROR, w)
  else if w.nc.buffer_size < size - 2 * NGX_NSOC_LEN_FIELD_SIZE then ok (NGX_ERROR, w)
  else if w.nc.to_send = 0 then
    match w.write_frame N data (size - 2 * NGX_NSOC_LEN_FIELD_SIZE) with
    | (none, w) => ok (NGX_ERROR, w)
    | (some b, w) => loop (write_body size) fuel (b, w)
  else
    match w.nc.send_buf with
    | none => fault
    | some b => loop (write_body size) fuel (b, w)

end Endpoint

end ngx_nsoc
