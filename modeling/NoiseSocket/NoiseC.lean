import NoiseSocket.Nginx

/-!
The part of the noise-c library that the modules call. The library itself is not
part of the repository: it is a parameter of the model, an object with a state
of its own that answers each call with a code and changes its state.
-/

namespace ngx_nsoc

def NOISE_ID (ch : Char) (num : Nat) : Nat := ch.toNat * 256 + num

@[simp] abbrev NOISE_ERROR_NONE : Nat := 0

@[simp] abbrev NOISE_ACTION_NONE : Int := 0
@[simp] abbrev NOISE_ACTION_WRITE_MESSAGE : Int := 0x4101
@[simp] abbrev NOISE_ACTION_READ_MESSAGE : Int := 0x4102
@[simp] abbrev NOISE_ACTION_FAILED : Int := 0x4103
@[simp] abbrev NOISE_ACTION_SPLIT : Int := 0x4104
@[simp] abbrev NOISE_ACTION_COMPLETE : Int := 0x4105

/-- `NoiseProtocolId`. -/
structure ProtocolId where
  cipher_id : Nat
  dh_id : Nat
  hash_id : Nat
  hybrid_id : Nat
  pattern_id : Nat
  prefix_id : Nat
deriving DecidableEq, Repr

inductive NoiseRole where
  | initiator
  | responder
deriving DecidableEq, Repr

/-- The noise-c calls of this repository. Codes are `NOISE_ERROR_NONE` or one
of the library's positive error codes; `S` is everything the library stores
for one connection. -/
structure NoiseC (S : Type) where
  noise_init : S → Nat × S
  handshakestate_new_by_id : ProtocolId → NoiseRole → S → Nat × S
  handshakestate_set_prologue : List UInt8 → S → Nat × S
  handshakestate_needs_local_keypair : S → Bool
  dhstate_get_private_key_length : S → Nat
  dhstate_set_keypair_private : List UInt8 → S → Nat × S
  handshakestate_needs_remote_public_key : S → Bool
  dhstate_get_public_key_length : S → Nat
  dhstate_set_public_key : List UInt8 → S → Nat × S
  handshakestate_start : S → Nat × S
  handshakestate_get_action : S → Int
  handshakestate_write_message : S → (Nat × List UInt8) × S
  handshakestate_read_message : List UInt8 → S → Nat × S
  handshakestate_split : S → Nat × S
  handshakestate_free : S → Nat × S
  cipherstate_encrypt : List UInt8 → S → (Nat × List UInt8) × S
  cipherstate_decrypt : List UInt8 → S → (Nat × List UInt8) × S

variable {S : Type}

/-- The messages of a noise handshake go back and forth: behind a message that
was written noise-c does not ask for another one to write, and behind one that
was read it does not ask for another one to read. -/
structure NoiseC.Alternates (N : NoiseC S) : Prop where
  write : ∀ s s' message, N.handshakestate_write_message s = ((NOISE_ERROR_NONE, message), s') →
    N.handshakestate_get_action s' ≠ NOISE_ACTION_WRITE_MESSAGE
  read : ∀ s s' message, N.handshakestate_read_message message s = (NOISE_ERROR_NONE, s') →
    N.handshakestate_get_action s' ≠ NOISE_ACTION_READ_MESSAGE

/-- An authentication tag of 16 bytes is put behind what is encrypted, and nothing is put behind
what is decrypted. -/
structure NoiseC.Tagged (N : NoiseC S) : Prop where
  encrypt : ∀ plain s, (N.cipherstate_encrypt plain s).1.1 = NOISE_ERROR_NONE →
    (N.cipherstate_encrypt plain s).1.2.length = plain.length + 16
  decrypt : ∀ sealed s, (N.cipherstate_decrypt sealed s).1.2.length ≤ sealed.length

/-- The numbers of the algorithms start at one: noise-c does not know an algorithm of number
zero. -/
structure NoiseC.KnownIds (N : NoiseC S) : Prop where
  cipher : ∀ id role s, id.cipher_id = NOISE_ID 'C' 0 →
    (N.handshakestate_new_by_id id role s).1 ≠ NOISE_ERROR_NONE
  dh : ∀ id role s, id.dh_id = NOISE_ID 'D' 0 →
    (N.handshakestate_new_by_id id role s).1 ≠ NOISE_ERROR_NONE
  hash : ∀ id role s, id.hash_id = NOISE_ID 'H' 0 →
    (N.handshakestate_new_by_id id role s).1 ≠ NOISE_ERROR_NONE
  pattern : ∀ id role s, id.pattern_id = NOISE_ID 'P' 0 →
    (N.handshakestate_new_by_id id role s).1 ≠ NOISE_ERROR_NONE

end ngx_nsoc
