import NoiseSocket.Handler.Environment

open Exec Exec.Result

namespace ngx_nsoc

variable {S : Type}

/-- The two 16-bit lengths of a handshake message. -/
inductive LenField where
  | neg_data
  | noise_msg
deriving DecidableEq, Repr

def LenField.part : LenField → Part
  | .neg_data => .neg_len
  | .noise_msg => .msg_len

def NoiseConnection.size (nc : NoiseConnection) : LenField → SizeField
  | .neg_data => nc.neg_data
  | .noise_msg => nc.noise_msg

def NoiseConnection.setSize (nc : NoiseConnection) (size : SizeField) :
    LenField → NoiseConnection
  | .neg_data => { nc with neg_data := size }
  | .noise_msg => { nc with noise_msg := size }

/-- The value of two bytes in network order. -/
def be16 (b0 b1 : UInt8) : Nat := 256 * b0.toNat + b1.toNat

namespace Endpoint

def setSize (w : Endpoint S) (f : LenField) (size : SizeField) : Endpoint S :=
  { w with nc := w.nc.setSize size f }

/-- One pass of the loop shared by the two length readers; `got` are the length
bytes read so far. -/
def read_len_body (f : LenField) :
    List UInt8 × Endpoint S → Result (ControlFlow (List UInt8 × Endpoint S) (Int × Endpoint S))
  | (got, w) =>
    let len := NGX_NSOC_LEN_FIELD_SIZE - got.length
    let (n, bytes, w) := w.ngx_recv f.part len
    if 0 < n then
      match got ++ bytes with
      | [b0, b1] => ok (.done (NGX_OK, w.setSize f (.known (be16 b0 b1))))
      | more => ok (.cont (more, w))
    else if len = 1 ∧ n = NGX_AGAIN then
      ok (.done (NGX_AGAIN, w.setSize f (.first (got.headD 0))))
    else
      let w := if n ≠ NGX_AGAIN then w.setLast n else w
      ok (.done (n, w.setSize f (w.nc.size f).stop_reading))

/-- The length reader: two bytes from the start, or one byte after the saved
first one. -/
def read_len (f : LenField) (fuel : Nat) (w : Endpoint S) : Result (Int × Endpoint S) :=
  match w.nc.size f with
  | .first b0 => loop (read_len_body f) fuel ([b0], w)
  | _ => loop (read_len_body f) fuel ([], w.setSize f .unset)

/-- `ngx_nsoc_read_negotiation_data_len`. -/
def read_negotiation_data_len (fuel : Nat) (w : Endpoint S) : Result (Int × Endpoint S) :=
  read_len .neg_data fuel w

/-- `ngx_nsoc_read_noise_msg_len`. -/
def read_noise_msg_len (fuel : Nat) (w : Endpoint S) : Result (Int × Endpoint S) :=
  read_len .noise_msg fuel w

end Endpoint

end ngx_nsoc
