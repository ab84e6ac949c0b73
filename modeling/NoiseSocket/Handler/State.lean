import NoiseSocket.Lib.Loop
import NoiseSocket.Lib.Memory
import NoiseSocket.NoiseC

open Exec

namespace ngx_nsoc

@[simp] abbrev NGX_NSOC_1MSG : Nat := 0
@[simp] abbrev NGX_NSOC_2MSG_OK : Nat := 1
@[simp] abbrev NGX_NSOC_2MSG_FB : Nat := 2
@[simp] abbrev NGX_NSOC_2MSG_ERR : Nat := 3
@[simp] abbrev NGX_NSOC_3MSG : Nat := 4

@[simp] abbrev NGX_NSOC_1MSG_NEG_DATA_SIZE : Nat := 6
@[simp] abbrev NGX_NSOC_2MSG_NEG_DATA_OK_SIZE : Nat := 0
@[simp] abbrev NGX_NSOC_2MSG_NEG_DATA_FB_SIZE : Nat := 3
@[simp] abbrev NGX_NSOC_2MSG_NEG_DATA_ERR_SIZE : Nat := 3
@[simp] abbrev NGX_NSOC_3MSG_NEG_DATA_SIZE : Nat := 0
@[simp] abbrev NGX_NSOC_LEN_FIELD_SIZE : Nat := 2

@[simp] abbrev NOISE_PROTOCOL_CURVE25519_KEY_LEN : Nat := 32
@[simp] abbrev NOISE_PROTOCOL_MAX_DH_KEY_LEN : Nat := 2048
@[simp] abbrev NOISE_PROTOCOL_PAYLOAD_SIZE : Nat := 65517
@[simp] abbrev NOISE_PROTOCOL_MAC_DATA_SIZE : Nat := 16
@[simp] abbrev NOISE_PROTOCOL_MAX_HANDSHAKE_LEN : Nat :=
  NOISE_PROTOCOL_CURVE25519_KEY_LEN * 2 + NOISE_PROTOCOL_MAC_DATA_SIZE * 2

/-- `swapw`: exchange the two bytes of a 16-bit word. -/
def swapw (x : UInt16) : UInt16 := ((x &&& 0xFF00) >>> 8) ||| ((x &&& 0x00FF) <<< 8)

def NGX_NSOC_VERSION_ID : UInt16 := swapw 1

/-- A 16-bit word as the (little-endian) host stores it. -/
def hostBytes (x : UInt16) : List UInt8 := [x.toUInt8, (x >>> 8).toUInt8]

/-- The word a little-endian host reads from two bytes. -/
def hostWord (lo hi : UInt8) : UInt16 := lo.toUInt16 ||| (hi.toUInt16 <<< 8)

/-- `noise_handshake_first_hdr_t`. -/
structure FirstHdr where
  version_id : UInt16
  dh_id : UInt8
  cipher_id : UInt8
  hash_id : UInt8
  pattern_id : UInt8
deriving DecidableEq, Repr

def FirstHdr.bytes (h : FirstHdr) : List UInt8 :=
  hostBytes h.version_id ++ [h.dh_id, h.cipher_id, h.hash_id, h.pattern_id]

/-- The header at the start of a buffer, if the buffer holds one. -/
def FirstHdr.ofBytes : List UInt8 → Option FirstHdr
  | v0 :: v1 :: dh :: cipher :: hash :: pattern :: _ => some ⟨hostWord v0 v1, dh, cipher, hash, pattern⟩
  | _ => none

/-- `noise_prologue_data_t`, a packed structure of 24 bytes. -/
structure PrologueData where
  strPrologue : List UInt8
  header_len : UInt16
  header : FirstHdr
deriving DecidableEq, Repr

/-- What `memcpy` from `&prologue->header_len` copies. -/
def PrologueData.headerBytes (p : PrologueData) : List UInt8 :=
  hostBytes p.header_len ++ p.header.bytes

def PrologueData.bytes (p : PrologueData) : List UInt8 := p.strPrologue ++ p.headerBytes

/-- An `ngx_array_t` of keys, by the address of its elements. -/
structure KeyArray where
  elts : Nat
  nelts : Nat
deriving DecidableEq, Repr

/-- `NOISE_CTX`. -/
structure NoiseCtx where
  private_keys : Option KeyArray
  public_keys : Option KeyArray
deriving DecidableEq, Repr

inductive HandshakePhase where
  | none_phase
  | process_phase
  | end_phase
deriving DecidableEq, Repr

/-- `ngx_noise_role_e`; a connection is created in one of these two roles. -/
inductive Role where
  | client
  | server
deriving DecidableEq, Repr

/-- The `nc->handler` that runs when a suspended handshake is over. -/
inductive ConnectionHandler where
  | noiseserver_handshake_handler
  | proxy_noise_handshake
deriving DecidableEq, Repr

/-- A length being received: `recv_size` is `NGX_NSOC_SIZE_UNSET`, or it holds the
first of the two bytes and `size_reading` is set, or it holds the length. -/
inductive SizeField where
  | unset
  | first (b0 : UInt8)
  | known (size : Nat)
deriving DecidableEq, Repr

/-- The value in the `recv_size` field; `none` is `NGX_NSOC_SIZE_UNSET`. -/
def SizeField.recv_size : SizeField → Option Nat
  | .unset => none
  | .first b0 => some b0.toNat
  | .known size => some size

/-- The assignment of zero to `size_reading`. -/
def SizeField.stop_reading : SizeField → SizeField
  | .first b0 => .known b0.toNat
  | size => size

/-- A handshake buffer: the bytes from `start` to `last`, the offset of `pos`,
and the room from `start` to `end`. -/
structure Buf where
  bytes : List UInt8
  pos : Nat
  cap : Nat
deriving DecidableEq, Repr

/-- The room left in a handshake buffer, `b->end - b->last`. -/
def Buf.room (b : Buf) : Nat := b.cap - b.bytes.length

/-- An `ngx_buf_t` over the caller's memory, by addresses. -/
structure RawBuf where
  start : Nat
  pos : Nat
  last : Nat
  stop : Nat
deriving DecidableEq, Repr

/-- `ngx_noise_connection_t`. -/
structure NoiseConnection where
  connection : Nat
  noise_ctx : NoiseCtx
  handshake_phase : HandshakePhase
  noise_role : Role
  msg_num : Nat
  last : Int
  buf : Option Buf
  buffer_size : Nat
  send_buf : Option RawBuf
  recv_buf : Option RawBuf
  to_send : Nat
  neg_data : SizeField
  noise_msg : SizeField
  handler : Option ConnectionHandler
  handshaked : Bool
  buffer : Bool
deriving DecidableEq, Repr

/-- The four fields a handshake message is received in, the two data fields with
the length that was received in front of them. -/
inductive Part where
  | neg_len
  | neg_data (len : Nat)
  | msg_len
  | msg_data (len : Nat)
deriving DecidableEq, Repr

/-- What the environment sees of a connection: the socket reads with what they
returned, and the calls into noise-c with what was passed. -/
inductive Obs where
  | recv (part : Part) (size : Nat) (n : Int) (bytes : List UInt8)
  | negotiation (true_len : Nat) (len : Option Nat)
  | set_prologue (bytes : List UInt8)
  | set_keypair_private (bytes : List UInt8)
  | set_public_key (bytes : List UInt8)
  | write_message (msg_num : Nat) (code : Nat)
  | read_message (bytes : List UInt8) (code : Nat)
deriving DecidableEq, Repr

/-- A connection together with its noise connection, the noise-c objects behind
it, the prologue it points to, memory, and the environment. The trace lists
observations newest first. -/
structure Endpoint (S : Type) where
  c : Connection
  nc : NoiseConnection
  noise : S
  prologue : PrologueData
  mem : Memory
  env : Env
  trace : List Obs

end ngx_nsoc
