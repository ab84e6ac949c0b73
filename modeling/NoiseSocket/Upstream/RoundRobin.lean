import NoiseSocket.Lib.Result
import NoiseSocket.Lib.Signed
import NoiseSocket.Nginx

open Exec Exec.Result

namespace ngx_nsoc_upstream

open ngx_nsoc

/-- `ngx_nsoc_upstream_server_t`, as far as peers are made of it. -/
structure Server where
  naddrs : Nat
  weight : Nat
  max_conns : Nat
  max_fails : Nat
  fail_timeout : Int
  down : Bool
  backup : Bool
deriving DecidableEq, Repr

/-- `ngx_nsoc_upstream_rr_peer_t`; the weights are what an `ngx_int_t` holds. -/
structure RrPeer where
  current_weight : Int
  effective_weight : Int
  weight : Int
  conns : Nat
  max_conns : Nat
  fails : Nat
  accessed : Int
  checked : Int
  max_fails : Nat
  fail_timeout : Int
  down : Bool
deriving DecidableEq, Repr

/-- `ngx_nsoc_upstream_rr_peers_t`: the list has `number` peers. -/
structure RrPeers where
  single : Bool
  peer : List RrPeer
deriving DecidableEq, Repr

def RrPeers.number (peers : RrPeers) : Nat := peers.peer.length

/-- The peers of an upstream: the primary group, and the backup group that is its `next`. -/
structure Upstream where
  primary : RrPeers
  backup : Option RrPeers
deriving DecidableEq, Repr

/-- A new peer for an address of `server`. -/
def Server.peer (server : Server) : RrPeer where
  current_weight := 0
  effective_weight := server.weight
  weight := server.weight
  conns := 0
  max_conns := server.max_conns
  fails := 0
  accessed := 0
  checked := 0
  max_fails := server.max_fails
  fail_timeout := server.fail_timeout
  down := server.down

/-- The peers of the servers for which `backup` is the same, an address a peer. -/
def server_peers (backup : Bool) (servers : List Server) : List RrPeer :=
  (servers.filter fun server => server.backup = backup).flatMap fun server =>
    List.replicate server.naddrs server.peer

/-- `ngx_nsoc_upstream_init_round_robin` with `us->servers`. -/
def init_round_robin (servers : List Server) : Option Upstream :=
  let peers := server_peers false servers
  let backup := server_peers true servers
  if peers.length = 0 then none
  else if backup.length = 0 then some ⟨⟨peers.length = 1, peers⟩, none⟩
  else some ⟨⟨false, peers⟩, some ⟨false, backup⟩⟩

/-- `ngx_nsoc_upstream_init_round_robin` for an upstream that `proxy_pass` defines, and
`ngx_nsoc_upstream_create_round_robin_peer`: `naddrs` peers of weight 1. -/
def implicit_round_robin (naddrs : Nat) : Upstream where
  primary :=
    ⟨naddrs = 1, List.replicate naddrs (Server.peer ⟨naddrs, 1, 0, 1, 10, false, false⟩)⟩
  backup := none

/-- Which of the two groups `rrp->peers` is. -/
inductive Group where
  | primary
  | backup
deriving DecidableEq, Repr

/-- `ngx_nsoc_upstream_rr_peer_data_t`, the round-robin state of a session; `tried` has
words of `8 * sizeof(uintptr_t)` bits. -/
structure RrPeerData where
  group : Group
  current : Option (Group × Nat)
  tried : List Nat
deriving DecidableEq, Repr

/-- `ngx_peer_connection_t`; `sockaddr` is the address of the selected peer. -/
structure PeerConnection where
  connection : Option Connection
  sockaddr : Option (Group × Nat)
  tries : Nat
  data : RrPeerData
deriving DecidableEq, Repr

namespace Upstream

def peers (us : Upstream) : Group → Option RrPeers
  | .primary => some us.primary
  | .backup => us.backup

/-- `peers->next`. -/
def next (us : Upstream) : Group → Option RrPeers
  | .primary => us.backup
  | .backup => none

/-- The peers of a group have changed. -/
def setPeer (us : Upstream) (peer : List RrPeer) : Group → Upstream
  | .primary => { us with primary := { us.primary with peer } }
  | .backup => { us with backup := us.backup.map fun peers => { peers with peer } }

/-- Change the peer that a pointer points to. -/
def modify (us : Upstream) (at_ : Group × Nat) (f : RrPeer → RrPeer) : Upstream :=
  match us.peers at_.1 with
  | none => us
  | some peers => us.setPeer (peers.peer.modify at_.2 f) at_.1

section

variable {us : Upstream} {g g' : Group} {peers : RrPeers}

theorem peers_setPeer (h : us.peers g = some peers) (peer : List RrPeer) :
    (us.setPeer peer g).peers g = some { peers with peer } := by
  cases g with
  | primary =>
    cases h
    rfl
  | backup =>
    have hbackup : us.backup = some peers := h
    simp [setPeer, Upstream.peers, hbackup]

theorem peers_setPeer_of_ne (h : g' ≠ g) (peer : List RrPeer) :
    (us.setPeer peer g).peers g' = us.peers g' := by
  cases g <;> cases g' <;> first | rfl | exact absurd rfl h

theorem peers_modify {p : Nat} (h : us.peers g = some peers) (f : RrPeer → RrPeer) :
    (us.modify (g, p) f).peers g = some { peers with peer := peers.peer.modify p f } := by
  simp only [modify, h]
  exact peers_setPeer h _

theorem peers_modify_of_ne {p : Nat} (h : g' ≠ g) (f : RrPeer → RrPeer) :
    (us.modify (g, p) f).peers g' = us.peers g' := by
  unfold modify
  cases us.peers g with
  | none => rfl
  | some peers => exact peers_setPeer_of_ne h _

theorem isSome_peers_modify (at_ : Group × Nat) (f : RrPeer → RrPeer) (g : Group) :
    ((us.modify at_ f).peers g).isSome = (us.peers g).isSome := by
  obtain ⟨g', p⟩ := at_
  by_cases hg : g = g'
  · subst hg
    cases hpeers : us.peers g with
    | none => simp [modify, hpeers]
    | some peers =>
      rw [peers_modify hpeers]
      rfl
  · rw [peers_modify_of_ne hg]

end

/-- `ngx_nsoc_upstream_tries`. -/
def tries (us : Upstream) : Nat :=
  us.primary.number + (us.backup.map RrPeers.number).getD 0

end Upstream

/-- The words that the bits of `n` peers take. -/
def words (n : Nat) : Nat := (n + 63) / 64

/-- `ngx_nsoc_upstream_init_round_robin_peer`, whose allocations succeed: the state of a
new session, with the words of the larger group. -/
def init_round_robin_peer (us : Upstream) : PeerConnection :=
  let n := max us.primary.number ((us.backup.map RrPeers.number).getD 0)
  { connection := none
    sockaddr := none
    tries := us.tries
    data :=
      { group := .primary, current := none
        tried := if n ≤ 64 then [0] else List.replicate (words n) 0 } }

/-- The test of bit `i`. -/
def is_tried (tried : List Nat) (i : Nat) : Result Bool :=
  match tried[i / 64]? with
  | none => fault
  | some word => ok (word &&& 1 <<< (i % 64) ≠ 0)

/-- Bit `i` is set. -/
def set_tried (tried : List Nat) (i : Nat) : Result (List Nat) :=
  match tried[i / 64]? with
  | none => fault
  | some word => ok (tried.set (i / 64) (word ||| 1 <<< (i % 64)))

/-- The first `n` words are cleared. -/
def clear_tried (tried : List Nat) (n : Nat) : Result (List Nat) :=
  if n ≤ tried.length then ok (List.replicate n 0 ++ tried.drop n) else fault

theorem is_tried_of_zero {tried : List Nat} {i : Nat} (h : tried[i / 64]? = some 0) :
    is_tried tried i = ok false := by
  simp [is_tried, h]

/-- A peer that may not be selected at the time `now`. -/
def RrPeer.unavailable (now : Int) (peer : RrPeer) : Bool :=
  peer.down ∨
    (peer.max_fails ≠ 0 ∧ peer.max_fails ≤ peer.fails ∧ now - peer.checked ≤ peer.fail_timeout) ∨
    (peer.max_conns ≠ 0 ∧ peer.max_conns ≤ peer.conns)

/-- A peer that takes part in a selection gets its effective weight, which recovers. Nothing keeps the
sum in the range of an `ngx_int_t`: past its end it goes on from the other one. -/
def RrPeer.advance (peer : RrPeer) : RrPeer :=
  { peer with
    current_weight := Signed.int64 (peer.current_weight + peer.effective_weight)
    effective_weight :=
      if peer.effective_weight < peer.weight then peer.effective_weight + 1
      else peer.effective_weight }

/-- `best`, by its place in the list, with its current weight. -/
structure Best where
  p : Nat
  current_weight : Int
deriving DecidableEq, Repr

/-- `best` behind the peer at `i`. -/
def Best.update (best : Option Best) (i : Nat) (current_weight : Int) : Option Best :=
  match best with
  | none => some ⟨i, current_weight⟩
  | some b => if b.current_weight < current_weight then some ⟨i, current_weight⟩ else some b

/-- The loop of `ngx_nsoc_upstream_get_peer`, from the peer at `i` on. -/
def get_peer_loop (now : Int) (tried : List Nat) : Nat → Option Best → Int → List RrPeer →
    Result (Option Best × Int × List RrPeer)
  | _, best, total, [] => ok (best, total, [])
  | i, best, total, peer :: rest => do
    let skip ← is_tried tried i
    if skip ∨ peer.unavailable now then
      let r ← get_peer_loop now tried (i + 1) best total rest
      ok (r.1, r.2.1, peer :: r.2.2)
    else
      let r ← get_peer_loop now tried (i + 1) (Best.update best i peer.advance.current_weight)
        (Signed.int64 (total + peer.effective_weight)) rest
      ok (r.1, r.2.1, peer.advance :: r.2.2)

/-- The best peer pays the total weight, and its time of failure is moved on. -/
def RrPeer.selected (now total : Int) (peer : RrPeer) : RrPeer :=
  { peer with
    current_weight := Signed.int64 (peer.current_weight - total)
    checked := if peer.fail_timeout < now - peer.checked then now else peer.checked }

/-- `ngx_nsoc_upstream_get_peer`: the place of the selected peer, the bits and the peers. -/
def get_peer (now : Int) (tried : List Nat) (peers : List RrPeer) :
    Result (Option Nat × List Nat × List RrPeer) := do
  let r ← get_peer_loop now tried 0 none 0 peers
  match r.1 with
  | none => ok (none, tried, r.2.2)
  | some best =>
    let tried ← set_tried tried best.p
    ok (some best.p, tried, r.2.2.modify best.p (RrPeer.selected now r.2.1))

/-- `peer->conns++`. -/
def RrPeer.connect (peer : RrPeer) : RrPeer := { peer with conns := peer.conns + 1 }

/-- The part of `ngx_nsoc_upstream_get_round_robin_peer` in front of `failed`, and whether
it has selected a peer. -/
def get_group_peer (now : Int) (us : Upstream) (pc : PeerConnection) :
    Result (Bool × Upstream × PeerConnection) :=
  match us.peers pc.data.group with
  | none => fault
  | some peers =>
    let select (us : Upstream) (pc : PeerConnection) (p : Nat) :=
      (true, us.modify (pc.data.group, p) RrPeer.connect,
        { pc with
          sockaddr := some (pc.data.group, p)
          data := { pc.data with current := some (pc.data.group, p) } })
    if peers.single then
      match peers.peer with
      | [] => fault
      | peer :: _ =>
        if peer.down ∨ (peer.max_conns ≠ 0 ∧ peer.max_conns ≤ peer.conns) then ok (false, us, pc)
        else ok (select us pc 0)
    else do
      let r ← get_peer now pc.data.tried peers.peer
      let us := us.setPeer r.2.2 pc.data.group
      let pc := { pc with data := { pc.data with tried := r.2.1 } }
      match r.1 with
      | none => ok (false, us, pc)
      | some p => ok (select us pc p)

/-- `ngx_nsoc_upstream_get_round_robin_peer`. The call for the backup group cannot fall
back any further. -/
def get_round_robin_peer (now : Int) (us : Upstream) (pc : PeerConnection) :
    Result (Int × Upstream × PeerConnection) := do
  let r ← get_group_peer now us { pc with connection := none }
  if r.1 then ok (NGX_OK, r.2) else
  match r.2.1.next r.2.2.data.group with
  | none => ok (NGX_BUSY, r.2)
  | some backup =>
    let tried ← clear_tried r.2.2.data.tried (words backup.number)
    let pc := { r.2.2 with data := { r.2.2.data with group := .backup, tried } }
    let r ← get_group_peer now r.2.1 { pc with connection := none }
    if r.1 then ok (NGX_OK, r.2) else ok (NGX_BUSY, r.2)

section

variable {now : Int} {us us' : Upstream} {pc pc' : PeerConnection} {r : Upstream × PeerConnection}

theorem get_round_robin_peer_of_selected
    (h : get_group_peer now us { pc with connection := none } = ok (true, r)) :
    get_round_robin_peer now us pc = ok (NGX_OK, r) := by
  simp only [get_round_robin_peer, h, bind_ok, if_true]

theorem get_round_robin_peer_of_last
    (h : get_group_peer now us { pc with connection := none } = ok (false, us', pc'))
    (hnext : us'.next pc'.data.group = none) :
    get_round_robin_peer now us pc = ok (NGX_BUSY, us', pc') := by
  simp only [get_round_robin_peer, h, bind_ok, Bool.false_eq_true, if_false, hnext]

theorem get_round_robin_peer_of_next {backup : RrPeers} {tried : List Nat} {selected : Bool}
    (h : get_group_peer now us { pc with connection := none } = ok (false, us', pc'))
    (hnext : us'.next pc'.data.group = some backup)
    (hclear : clear_tried pc'.data.tried (words backup.number) = ok tried)
    (hbackup : get_group_peer now us' { pc' with
      connection := none, data := { pc'.data with group := .backup, tried } } = ok (selected, r)) :
    get_round_robin_peer now us pc = ok (if selected then NGX_OK else NGX_BUSY, r) := by
  simp only [get_round_robin_peer, h, bind_ok, Bool.false_eq_true, if_false, hnext, hclear, hbackup]
  cases selected <;> rfl

end

/-- A selection succeeds or finds no peer. -/
theorem get_round_robin_peer_code {now : Int} {us : Upstream} {pc : PeerConnection}
    {r : Int × Upstream × PeerConnection} (h : get_round_robin_peer now us pc = ok r) :
    r.1 = NGX_OK ∨ r.1 = NGX_BUSY := by
  obtain ⟨q, -, h⟩ := bind_eq_ok_iff.mp h
  split at h
  · cases h
    exact .inl rfl
  split at h
  · cases h
    exact .inr rfl
  obtain ⟨tried, -, h⟩ := bind_eq_ok_iff.mp h
  obtain ⟨q, -, h⟩ := bind_eq_ok_iff.mp h
  split at h
  · cases h
    exact .inl rfl
  · cases h
    exact .inr rfl

/-- `peer->conns--` on an unsigned counter. -/
def RrPeer.disconnect (peer : RrPeer) : RrPeer :=
  { peer with conns := if peer.conns = 0 then 2 ^ 64 - 1 else peer.conns - 1 }

/-- What a failed attempt costs a peer. -/
def RrPeer.fail (now : Int) (peer : RrPeer) : RrPeer :=
  let effective_weight :=
    if peer.max_fails ≠ 0 then peer.effective_weight - peer.weight / peer.max_fails
    else peer.effective_weight
  { peer with
    fails := peer.fails + 1
    accessed := now
    checked := now
    effective_weight := if effective_weight < 0 then 0 else effective_weight }

/-- A peer is live if a check has passed. -/
def RrPeer.live (peer : RrPeer) : RrPeer :=
  if peer.accessed < peer.checked then { peer with fails := 0 } else peer

/-- `ngx_nsoc_upstream_free_round_robin_peer`; `failed` is `state & NGX_PEER_FAILED`. -/
def free_round_robin_peer (now : Int) (us : Upstream) (pc : PeerConnection) (failed : Bool) :
    Result (Upstream × PeerConnection) :=
  match pc.data.current, us.peers pc.data.group with
  | some current, some peers =>
    if peers.single then ok (us.modify current RrPeer.disconnect, { pc with tries := 0 })
    else
      let update (peer : RrPeer) : RrPeer :=
        (if failed then peer.fail now else peer.live).disconnect
      ok (us.modify current update, { pc with tries := pc.tries - 1 })
  | _, _ => fault

/-- `ngx_nsoc_upstream_notify_round_robin_peer` for a stream connection. -/
def notify_round_robin_peer (us : Upstream) (pc : PeerConnection) : Result Upstream :=
  match pc.data.current with
  | none => fault
  | some current => ok (us.modify current RrPeer.live)

end ngx_nsoc_upstream
