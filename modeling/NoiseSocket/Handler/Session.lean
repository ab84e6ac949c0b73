import NoiseSocket.Handler.Data.Duplex.Run
import NoiseSocket.Handler.Handshake.Exchange

open Exec Exec.Result

namespace ngx_nsoc

variable {S T R : Type}

open Endpoint

/-- The length of the handshake message in front of what is on the way. -/
def message_length (pending : List UInt8) : Nat :=
  match pending with
  | n0 :: n1 :: rest =>
    match rest.drop (be16 n0 n1) with
    | m0 :: m1 :: _ => 4 + be16 n0 n1 + be16 m0 m1
    | _ => pending.length
  | _ => pending.length

/-- What happens at the near end from the first message on: a call of the handshake, or one of the acts of
an established connection. -/
inductive SessionAct where
  | handshake
  | data (act : Act)
deriving DecidableEq, Repr

def SessionAct.apply (N : NoiseC S) (fuel : Nat) (act : SessionAct) (c : Channel S) : Result (Channel S) :=
  match act with
  | .handshake => do
    let r ← c.near.w.do_handshake_process N fuel
    ok { near := { c.near with
           w := r.2
           failed := c.near.failed || (r.1 != NGX_OK && r.1 != NGX_AGAIN) }
         far := { c.far with pending := c.far.pending ++ r.2.env.tx.drop c.near.w.env.tx.length } }
  | .data act => act.apply N fuel c

/-- A step at the near end. No message is begun behind a call of the handshake. -/
structure Steps (N : NoiseC S) (fuel : Nat) (act : SessionAct) (c c' : Channel S) : Prop where
  apply : act.apply N fuel c = ok c'
  between : act = .handshake → c'.near.w.nc.noise_msg = .unset

/-- A call that gets the near end past its handshake has taken the messages of the handshake from the
stream and nothing else: the frames of the payloads that have been written are before the end. -/
def SessionAct.StopsAtFrames (act : SessionAct) (next : Channel S) : Prop :=
  act = .handshake → next.near.w.nc.handshaked = true → next.near.AtFrames next.far.history

/-- The handshake is called until it is over, at a time when the socket takes a whole message, and it is
over before anything is written or read. No message of it arrives in parts. -/
def SessionAct.Allowed (act : SessionAct) (c : Channel S) : Prop :=
  match act with
  | .handshake => c.near.w.nc.handshaked = false ∧ c.near.w.takes_all 65545 = true
  | .data (.deliver n) => c.near.w.nc.handshaked = false → message_length c.near.pending ≤ n + 1
  | .data .pause => True
  | .data act => c.near.w.nc.handshaked = true ∧ act.Allowed c

/-- Acts of the two ends in any order. -/
inductive Channel.Session (N : NoiseC S) (fuel : Nat) (start : Channel S) : Channel S → Prop where
  | refl : Session N fuel start start
  | near {c c' : Channel S} (h : Session N fuel start c) (act : SessionAct) (hallowed : act.Allowed c)
      (hstep : act.apply N fuel c = ok c') : Session N fuel start c'
  | far {c c' : Channel S} (h : Session N fuel start c) (act : SessionAct) (hallowed : act.Allowed c.swap)
      (hstep : act.apply N fuel c.swap = ok c') : Session N fuel start c'.swap

/-- What the two sides of a handshake of three messages do in noise-c when their keys fit: `together k`
relates their states behind `k` messages, and behind the last one they split into ciphers that agree. -/
structure NoiseC.Interactive (N : NoiseC S) (together : Nat → S → S → Prop) (sending : S → T)
    (receiving : S → R) (Sync : T → R → Prop) : Prop where
  first : ∀ s t, together 0 s t → ∃ message s' t', N.Passes s t message s' t' ∧ together 1 s' t'
  second : ∀ s t, together 1 s t → ∃ message s' t', N.Passes t s message t' s' ∧ together 2 s' t'
  third : ∀ s t, together 2 s t → ∃ message s' t', N.Passes s t message s' t' ∧ together 3 s' t'
  split : ∀ s t, together 3 s t → ∃ s' t', N.Splits s s' ∧ N.Splits t t' ∧
    Sync (sending s') (receiving t') ∧ Sync (sending t') (receiving s')

/-- `ngx_noise_protocol_init_handshake` succeeds, and leaves noise-c in the state `s` once it has been
started. -/
def Opens (N : NoiseC S) (w : Endpoint S) (s : S) : Prop :=
  ∃ n u, n ≠ NGX_ERROR ∧ ngx_noise_protocol.init_handshake N w = ok (n, u) ∧
    (N.handshakestate_start u.noise).2 = s

/-- An end of a connection to which nothing has come in and on which nothing has happened. -/
structure Party.Untouched (p : Party S) : Prop where
  idle : p.w.Idle 0
  handshaked : p.w.nc.handshaked = false
  rx : p.w.env.rx = ⟨[], false⟩
  pending : p.pending = []
  history : p.history = []
  failed : p.failed = false

/-- A client and a server before the handshake. -/
structure Channel.Opening (N : NoiseC S) (together : Nat → S → S → Prop) (c : Channel S) : Prop where
  near : Unstarted .client c.near.w
  far : Unstarted .server c.far.w
  near_untouched : c.near.Untouched
  far_untouched : c.far.Untouched
  prologue : c.near.w.prologue = proxy_prologue
  keys : ∃ s t, Opens N c.near.w s ∧ Opens N c.far.w.headed t ∧ together 0 s t

end ngx_nsoc
