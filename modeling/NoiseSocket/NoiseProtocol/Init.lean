import NoiseSocket.Handler.State

open Exec Exec.Result

namespace ngx_noise_protocol

open ngx_nsoc

variable {S : Type}

def NOISE_PREFIX_STANDARD : Nat := NOISE_ID 'N' 0

/-- The protocol that a prologue header names. -/
def protocol_id (prologue : PrologueData) : ProtocolId where
  cipher_id := NOISE_ID 'C' prologue.header.cipher_id.toNat % 0x10000
  dh_id := NOISE_ID 'D' prologue.header.dh_id.toNat % 0x10000
  hash_id := NOISE_ID 'H' prologue.header.hash_id.toNat % 0x10000
  hybrid_id := 0
  pattern_id := NOISE_ID 'P' prologue.header.pattern_id.toNat % 0x10000
  prefix_id := NOISE_PREFIX_STANDARD

def noise_role : Role → NoiseRole
  | .client => .initiator
  | .server => .responder

/-- The local key pair of `ngx_noise_protocol_init_handshake`: the bytes passed
to noise-c are those stored at the elements of the array. -/
def init_local_keypair (N : NoiseC S) (w : Endpoint S) : Result (Int × Endpoint S) :=
  if N.handshakestate_needs_local_keypair w.noise then
    match w.nc.noise_ctx.private_keys with
    | none => fault
    | some keys =>
      let key := w.mem.read keys.elts (N.dhstate_get_private_key_length w.noise)
      let call := N.dhstate_set_keypair_private key w.noise
      ok (if call.1 ≠ NOISE_ERROR_NONE then NGX_ERROR else NGX_OK,
        { w with noise := call.2, trace := .set_keypair_private key :: w.trace })
  else ok (NGX_OK, w)

/-- The remote public key of `ngx_noise_protocol_init_handshake`. -/
def init_remote_public_key (N : NoiseC S) (w : Endpoint S) : Result (Int × Endpoint S) :=
  if N.handshakestate_needs_remote_public_key w.noise then
    match w.nc.noise_ctx.public_keys with
    | none => fault
    | some keys =>
      let key := w.mem.read keys.elts (N.dhstate_get_public_key_length w.noise)
      let call := N.dhstate_set_public_key key w.noise
      ok (if call.1 ≠ NOISE_ERROR_NONE then NGX_ERROR else NGX_OK,
        { w with noise := call.2, trace := .set_public_key key :: w.trace })
  else ok (NGX_OK, w)

/-- `ngx_noise_protocol_init_handshake`. -/
def init_handshake (N : NoiseC S) (w : Endpoint S) : Result (Int × Endpoint S) := do
  let init := N.noise_init w.noise
  if init.1 ≠ NOISE_ERROR_NONE then ok (NGX_ERROR, { w with noise := init.2 }) else
  let new := N.handshakestate_new_by_id (protocol_id w.prologue) (noise_role w.nc.noise_role) init.2
  if new.1 ≠ NOISE_ERROR_NONE then ok (NGX_ERROR, { w with noise := new.2 }) else
  let set := N.handshakestate_set_prologue w.prologue.bytes new.2
  let w := { w with noise := set.2, trace := .set_prologue w.prologue.bytes :: w.trace }
  if set.1 ≠ NOISE_ERROR_NONE then ok (NGX_ERROR, w) else
  let (rc, w) ← init_local_keypair N w
  if rc ≠ NGX_OK then ok (NGX_ERROR, w) else
  init_remote_public_key N w

end ngx_noise_protocol
