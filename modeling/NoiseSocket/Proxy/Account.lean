import NoiseSocket.Proxy
import NoiseSocket.Upstream.Pick

open Exec Exec.Result

namespace ngx_nsoc_upstream

open ngx_nsoc

variable {us us' : Upstream} {at_ : Group × Nat}

/-- One connection less to the peer at `at_`. -/
structure Upstream.Frees (us us' : Upstream) (at_ : Group × Nat) : Prop where
  shape : us'.shape = us.shape
  load : ∃ conns max_conns, us.load at_ = some (conns, max_conns) ∧
    us'.load = Function.update us.load at_
      (some (if conns = 0 then 2 ^ 64 - 1 else conns - 1, max_conns))

theorem Upstream.frees_modify {f : RrPeer → RrPeer}
    (hconns : ∀ peer, (f peer).conns = if peer.conns = 0 then 2 ^ 64 - 1 else peer.conns - 1)
    (hmax : ∀ peer, (f peer).max_conns = peer.max_conns) (hpeer : (us.peer at_).isSome = true) :
    us.Frees (us.modify at_ f) at_ := by
  obtain ⟨peer, hpeer⟩ := Option.isSome_iff_exists.mp hpeer
  have hload : us.load at_ = some (peer.conns, peer.max_conns) := by simp [Upstream.load, hpeer]
  exact ⟨Upstream.shape_modify _ _, peer.conns, peer.max_conns, hload,
    Upstream.load_modify_conns (fun conns => if conns = 0 then 2 ^ 64 - 1 else conns - 1)
      hconns hmax hload⟩

theorem RrPeer.conns_live (peer : RrPeer) : peer.live.conns = peer.conns := by
  unfold RrPeer.live
  split <;> rfl

theorem RrPeer.max_conns_live (peer : RrPeer) : peer.live.max_conns = peer.max_conns := by
  unfold RrPeer.live
  split <;> rfl

/-- The tries that a release leaves. -/
def triesLeft (single : Bool) (tries : Nat) : Nat := if single then 0 else tries - 1

theorem free_round_robin_peer_spec (now : Int) (failed : Bool) {pc : PeerConnection} {single : Bool}
    {n : Nat} (hcurrent : pc.data.current = some at_) (hpeer : (us.peer at_).isSome = true)
    (hshape : us.shape pc.data.group = some (single, n)) :
    ∃ us', free_round_robin_peer now us pc failed =
        ok (us', { pc with tries := triesLeft single pc.tries }) ∧
      us.Frees us' at_ := by
  obtain ⟨peers, hpeers, rfl, rfl⟩ := Upstream.peers_of_shape hshape
  by_cases hsingle : peers.single = true
  · refine ⟨us.modify at_ RrPeer.disconnect, ?_, Upstream.frees_modify (fun _ => rfl) (fun _ => rfl) hpeer⟩
    simp only [free_round_robin_peer, hcurrent, hpeers, hsingle, if_true, triesLeft]
  · refine ⟨_, by simp only [free_round_robin_peer, hcurrent, hpeers, hsingle, triesLeft]; rfl, ?_⟩
    apply Upstream.frees_modify _ _ hpeer
    · intro peer
      cases failed with
      | true => rfl
      | false => simp [RrPeer.disconnect, RrPeer.conns_live]
    · intro peer
      cases failed with
      | true => rfl
      | false => simp [RrPeer.disconnect, RrPeer.max_conns_live]

theorem notify_round_robin_peer_keeps {pc : PeerConnection}
    (h : notify_round_robin_peer us pc = ok us') : us.Keeps us' := by
  unfold notify_round_robin_peer at h
  cases hcurrent : pc.data.current with
  | none => simp [hcurrent] at h
  | some current =>
    simp only [hcurrent, Result.ok.injEq] at h
    subst h
    exact ⟨Upstream.shape_modify _ _, Upstream.load_modify RrPeer.conns_live RrPeer.max_conns_live⟩

end ngx_nsoc_upstream

namespace ngx_nsoc_proxy

open ngx_nsoc ngx_nsoc_upstream

variable {S : Type}

/-- What a session keeps about the peers of its upstream. -/
structure Account where
  sockaddr : Option (Group × Nat)
  tries : Nat
  data : RrPeerData
  attempts : List (Group × Nat)
  freed : List (Group × Nat)
deriving DecidableEq, Repr

/-- What one call may do to the peers and to the account of its session. -/
inductive Account.Step (us us' : Upstream) (a : Account) : Account → Prop where
  | keep (hkeeps : us.Keeps us') : Account.Step us us' a a
  | busy {data : RrPeerData} (hnone : a.sockaddr = none) (hkeeps : us.Keeps us')
      (hgroup : (us.shape data.group).isSome = true) : Account.Step us us' a { a with data }
  | select {at_ : Group × Nat} {tried : List Nat} (hnone : a.sockaddr = none)
      (hconnects : us.Connects us' at_) (hlength : tried.length = a.data.tried.length)
      (hmarks : at_.1 = a.data.group →
        (∃ n, us.shape at_.1 = some (true, n)) ∨ Marks a.data.tried tried at_.2)
      (hswitch : at_.1 ≠ a.data.group → a.data.group = .primary ∧ at_.1 = .backup ∧
        us.primary.single = false ∧ marked tried at_.2 = true) :
      Account.Step us us' a { a with
        sockaddr := some at_, data := ⟨at_.1, some at_, tried⟩, attempts := at_ :: a.attempts }
  | free {at_ : Group × Nat} {single : Bool} {n : Nat} (hsome : a.sockaddr = some at_)
      (hfrees : us.Frees us' at_) (hshape : us.shape a.data.group = some (single, n)) :
      Account.Step us us' a { a with
        sockaddr := none, tries := triesLeft single a.tries, freed := at_ :: a.freed }

/-- Whether a session at a call holds a peer. -/
def Call.Holds : Call → Option (Group × Nat) → Prop
  | .connect, sockaddr => sockaddr = none
  | .ended, sockaddr => sockaddr = none
  | .finalize, _ => True
  | _, sockaddr => sockaddr.isSome = true

/-- The pointers of a session into its upstream are valid. -/
structure Account.Sound (us : Upstream) (call : Call) (a : Account) : Prop where
  group : (us.shape a.data.group).isSome = true
  fits : call = .finalize ∨ call = .ended ∨ us.Fits a.data.tried
  current : ∀ at_, a.sockaddr = some at_ →
    a.data.current = some at_ ∧ at_.1 = a.data.group ∧ (us.peer at_).isSome = true
  attempts : a.attempts = a.sockaddr.toList ++ a.freed
  holds : call.Holds a.sockaddr

namespace Proxy

/-- The account of a session. -/
def account (s : Proxy S) : Account where
  sockaddr := s.peer.sockaddr
  tries := s.peer.tries
  data := s.peer.data
  attempts := s.attempts
  freed := s.freed

section

variable {us : Upstream} {s : Proxy S}

@[simp]
theorem account_setConnection (s : Proxy S) (pc : Option Connection) :
    (s.setConnection pc).account = s.account := rfl

@[simp]
theorem account_setHandlers (s : Proxy S) (h : EventHandler) :
    (s.setHandlers h).account = s.account := rfl

@[simp]
theorem account_setWriteTimer (s : Proxy S) (armed : Bool) :
    (s.setWriteTimer armed).account = s.account := rfl

@[simp]
theorem account_ngx_alloc (s : Proxy S) : s.ngx_alloc.2.account = s.account := rfl

@[simp]
theorem account_put (s : Proxy S) (w : Endpoint S) : (s.put w).account = s.account := rfl

@[simp]
theorem account_setHandler (s : Proxy S) (handler : ConnectionHandler) :
    (s.setHandler handler).account = s.account := rfl

@[simp]
theorem account_newConnection (s : Proxy S) (id : Nat) (env : Env) :
    (s.newConnection id env).account = s.account := rfl

@[simp]
theorem account_disturb (s : Proxy S) (read write : ngx_nsoc.Event → ngx_nsoc.Event) (prologue : PrologueData)
    (mem : Memory) (env : Env) : (s.disturb read write prologue mem env).account = s.account := rfl

/-- The calls that a call of the module may lead to. -/
def Leads : Call → Call → Prop
  | .connect, next => next = .finalize ∨ next = .next_upstream ∨ next = .init_upstream ∨ next = .waiting
  | .init_upstream, next =>
    next = .next_upstream ∨ next = .noise_init_connection ∨ next = .finalize ∨ next = .process false true
  | .noise_init_connection, next => next = .finalize ∨ next = .waiting ∨ next = .noise_handshake
  | .noise_handshake, next => next = .init_upstream ∨ next = .next_upstream
  | .process _ _, next => next = .waiting ∨ next = .next_upstream ∨ next = .finalize
  | .next_upstream, next => next = .finalize ∨ next = .connect
  | .finalize, next => next = .ended
  | .waiting, _ => False
  | .ended, _ => False

end

end Proxy

end ngx_nsoc_proxy
