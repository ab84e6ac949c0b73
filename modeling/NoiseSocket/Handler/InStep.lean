import NoiseSocket.Handler.Dialogue.Openings
import NoiseSocket.Handler.Handshake.Exchange

open Exec Exec.Result

namespace ngx_nsoc

variable {S : Type}

/-- The `msg_num` of each message of a handshake. Behind the third one the code begins again. -/
def number : Nat → Nat
  | 1 => NGX_NSOC_2MSG_OK
  | 2 => NGX_NSOC_3MSG
  | _ => NGX_NSOC_1MSG

/-- The size of the negotiation data of each message. -/
def neg_size : Nat → Nat
  | 1 => NGX_NSOC_2MSG_NEG_DATA_OK_SIZE
  | 2 => NGX_NSOC_3MSG_NEG_DATA_SIZE
  | _ => NGX_NSOC_1MSG_NEG_DATA_SIZE

/-- The client writes the first message and the third one, the server the second one. -/
def writer (k : Nat) : Role := if k % 2 = 0 then .client else .server

/-- The data behind a length. -/
def LenField.data : LenField → Nat → Part
  | .neg_data => .neg_data
  | .noise_msg => .msg_data

/-- The length that comes behind the data of a length. -/
def LenField.other : LenField → LenField
  | .neg_data => .noise_msg
  | .noise_msg => .neg_data

/-- A place in a stream of handshake messages: at a length, of which `held` has gone by, or inside the data
behind it. -/
inductive Position where
  | len (f : LenField) (held : List UInt8)
  | data (f : LenField) (size left : Nat)
deriving DecidableEq, Repr

namespace Position

/-- The beginning of a stream. -/
def first : Position := .len .neg_data []

def behind_len (f : LenField) (size : Nat) : Position :=
  if size = 0 then .len f.other [] else .data f size size

/-- What the next byte of a stream belongs to, and the place behind it. -/
def next (b : UInt8) : Position → Part × Position
  | .len f [] => (f.part, .len f [b])
  | .len f (b0 :: _) => (f.part, behind_len f (be16 b0 b))
  | .data f size left => (f.data size, if left ≤ 1 then .len f.other [] else .data f size (left - 1))

/-- The place behind some bytes. -/
def behind (place : Position) : List UInt8 → Position
  | [] => place
  | b :: bytes => behind (place.next b).2 bytes

/-- The bytes of a stream, each with the field that it belongs to. -/
def layout (place : Position) : List UInt8 → List (Part × UInt8)
  | [] => []
  | b :: bytes => ((place.next b).1, b) :: layout (place.next b).2 bytes

end Position

/-- Whether noise-c has made or taken a message. -/
def Obs.isAccepted : Obs → Bool
  | .write_message _ code => code = NOISE_ERROR_NONE
  | .read_message _ code => code = NOISE_ERROR_NONE
  | _ => false

/-- How far noise-c has got: the messages that it has made and taken. -/
def accepted (trace : List Obs) : Nat := trace.countP Obs.isAccepted

/-- The checks of a negotiation length since the last message, newest first. -/
def checks : List Obs → List (Nat × Option Nat)
  | .negotiation true_len len :: trace => (true_len, len) :: checks trace
  | .recv .. :: trace | .set_prologue _ :: trace | .set_keypair_private _ :: trace | .set_public_key _ :: trace =>
    checks trace
  | _ => []

/-- Whether an observation is in order behind those of `trace`: a byte is read for what it is in the stream,
the negotiation length of a message is checked once, against that of the message which is due, and a message
is written under its own number and read behind its check. -/
def Obs.InOrder (trace : List Obs) : Obs → Prop
  | .recv part _ _ bytes => (Position.first.behind (received trace)).layout bytes = bytes.map (part, ·)
  | .negotiation true_len _ => true_len = neg_size (accepted trace) ∧ checks trace = []
  | .write_message msg_num _ => msg_num = number (accepted trace)
  | .read_message _ _ => checks trace = [(neg_size (accepted trace), some (neg_size (accepted trace)))]
  | _ => True

def InOrder : List Obs → Prop
  | [] => True
  | o :: trace => o.InOrder trace ∧ InOrder trace

/-- The negotiation data of each message of a client and a server. -/
def neg_bytes (k : Nat) : List UInt8 := if k = 0 then proxy_prologue.header.bytes else []

/-- A length and its data, each byte with the field that it is written in. -/
def field (f : LenField) (bytes : List UInt8) : List (Part × UInt8) :=
  (Endpoint.lenBytes bytes.length).map (f.part, ·) ++ bytes.map (f.data bytes.length, ·)

/-- What one side has written when `messages` have gone back and forth, from the message `k` on. -/
def said (role : Role) : Nat → List (List UInt8) → List (Part × UInt8)
  | _, [] => []
  | k, message :: messages =>
    (if writer k = role then field .neg_data (neg_bytes k) ++ field .noise_msg message else []) ++
      said role (k + 1) messages

/-- `turn role k s` says of noise-c that `k` messages have passed at a side that is in the state `s`. The
client writes first, the two sides take turns, there are no more than three messages, and a message fits the
buffer that it is made in. -/
structure NoiseC.InTurns (N : NoiseC S) (turn : Role → Nat → S → Prop) : Prop where
  starts : ∀ w v : Endpoint S, ngx_noise_protocol.init_handshake N w = ok (NGX_OK, v) →
    turn w.nc.noise_role 0 (N.handshakestate_start v.noise).2
  writes : ∀ role k s, turn role k s → N.handshakestate_get_action s = NOISE_ACTION_WRITE_MESSAGE →
    k < 3 ∧ writer k = role
  reads : ∀ role k s, turn role k s → N.handshakestate_get_action s = NOISE_ACTION_READ_MESSAGE →
    k < 3 ∧ writer k ≠ role
  written : ∀ role k s message s', turn role k s →
    N.handshakestate_write_message s = ((NOISE_ERROR_NONE, message), s') →
    turn role (k + 1) s' ∧ message.length ≤ NOISE_PROTOCOL_MAX_HANDSHAKE_LEN
  read : ∀ role k s message s', turn role k s →
    N.handshakestate_read_message message s = (NOISE_ERROR_NONE, s') → turn role (k + 1) s'

namespace Endpoint

/-- Where the phase that begins gets behind the negotiation part of a message, the whole of its noise part
comes in. -/
def Unbroken (N : NoiseC S) (w : Endpoint S) : Prop :=
  w.nc.handshake_phase = .process_phase → w.action N = NOISE_ACTION_READ_MESSAGE →
    ∀ rx ∈ w.gate_rx, ComesWhole w.nc.noise_msg rx

instance (N : NoiseC S) (w : Endpoint S) : Decidable (w.Unbroken N) :=
  inferInstanceAs (Decidable (_ → _))

/-- Something arrives at the socket. -/
def feed (w : Endpoint S) (item : Net.Item) : Endpoint S :=
  w.leaving { w.env.rx with items := w.env.rx.items ++ [item] }

end Endpoint

/-- One end of a connection: its endpoint, the result of its handshake once that is over, and the bytes that
are on the way to it. -/
structure End (S : Type) where
  w : Endpoint S
  result : Option Int
  pending : List UInt8

/-- Two ends, joined by a channel that keeps the bytes and their order. -/
structure Wire (S : Type) where
  near : End S
  far : End S

namespace End

/-- An end behind a phase of its handshake. A call that was suspended is followed by another one when the
event core reports an event. -/
def behind (p : End S) (read write : Bool) : ControlFlow (Endpoint S) (Int × Endpoint S) → End S
  | .cont v => { p with w := v }
  | .done (n, v) =>
    if n = NGX_AGAIN then { p with w := v.wake read write } else { p with w := v, result := some n }

/-- So many of the bytes that are on the way arrive together. -/
def deliver (p : End S) (n : Nat) : End S :=
  match p.pending.take (n + 1) with
  | [] => p
  | b :: bytes => { p with w := p.w.feed (.data b bytes), pending := p.pending.drop (n + 1) }

/-- An end at which nothing has happened. -/
structure Opening (role : Role) (p : End S) : Prop where
  fresh : p.w.Fresh
  role : p.w.nc.noise_role = role
  granted : p.w.Granted
  sends : p.w.env.sends = []
  rx : p.w.env.rx = ⟨[], false⟩
  tx : p.w.env.tx = []
  result : p.result = none
  pending : p.pending = []

/-- An end that has done everything in order so far, and whose `msg_num` is that of the message which is due
in noise-c. -/
structure InStep (p : End S) : Prop where
  order : InOrder p.w.trace
  msg_num : p.result = none ∨ p.result = some NGX_OK → p.w.nc.msg_num = number (accepted p.w.trace)

/-- Every message of `q` has been written in the format of its number, and `p` has read each byte for what it
was written as. -/
def Hears (p q : End S) : Prop :=
  ∃ messages, messages.length = accepted q.w.trace ∧
    q.w.env.tx = (said q.w.nc.noise_role 0 messages).map Prod.snd ∧
    taken p.w.trace <+: said q.w.nc.noise_role 0 messages

end End

namespace Wire

def swap (c : Wire S) : Wire S := ⟨c.far, c.near⟩

/-- A step of the near end: a phase of its handshake, an arrival, or a moment at which its socket has nothing
to read. -/
inductive NearStep (N : NoiseC S) (cond : Endpoint S → Prop) (c : Wire S) : Wire S → Prop where
  | phase {fuel : Nat} {flow : ControlFlow (Endpoint S) (Int × Endpoint S)} (read write : Bool)
      (hresult : c.near.result = none) (hcond : cond c.near.w) (hphase : c.near.w.phase N fuel = ok flow) :
      NearStep N cond c {
        near := c.near.behind read write flow
        far := { c.far with
          pending := c.far.pending ++ (Endpoint.flowState flow).env.tx.drop c.near.w.env.tx.length } }
  | deliver (n : Nat) : NearStep N cond c { c with near := c.near.deliver n }
  | pause : NearStep N cond c { c with near := { c.near with w := c.near.w.feed .again } }

/-- Steps of the two ends in any order. -/
inductive Run (N : NoiseC S) (cond : Endpoint S → Prop) (start : Wire S) : Wire S → Prop where
  | first : Run N cond start start
  | near {c c' : Wire S} (hrun : Run N cond start c) (hstep : NearStep N cond c c') : Run N cond start c'
  | far {c c' : Wire S} (hrun : Run N cond start c) (hstep : NearStep N cond c.swap c') :
      Run N cond start c'.swap

/-- A client and a server before their handshake. -/
structure Opening (c : Wire S) : Prop where
  near : c.near.Opening .client
  far : c.far.Opening .server
  prologue : c.near.w.prologue = proxy_prologue

/-- Both ends are in step, and understand each other. -/
structure InStep (c : Wire S) : Prop where
  near : c.near.InStep
  far : c.far.InStep
  near_hears : c.near.Hears c.far
  far_hears : c.far.Hears c.near

end Wire

end ngx_nsoc
