import NoiseSocket.NoiseC.Pattern
import NoiseSocket.Proxy.Account.Calls

open Exec Exec.Result

namespace ngx_nsoc_proxy

open ngx_nsoc ngx_nsoc_upstream

variable {S : Type}

/-- An upstream with the sessions of all servers that pass to it. -/
structure Shared (S : Type) where
  us : Upstream
  sessions : List (Call × Proxy S)

namespace Shared

/-- The states that the sessions and their upstream come to: sessions are accepted at any
time, and the calls and events of the sessions are interleaved at will. -/
inductive Reachable (N : NoiseC S) : Shared S → Prop where
  | configured {us : Upstream} (hus : us.Configured) : Reachable N ⟨us, []⟩
  | accepted {w : Shared S} (hw : Reachable N w) (conf : SrvConf) (stream notify preread : Bool)
      (noise : S) (prologue : PrologueData) (mem : Memory) (env : Env) :
      Reachable N { w with sessions := w.sessions ++
        [(Proxy.create conf stream notify preread noise prologue mem env).proxy_handler w.us] }
  | called {w : Shared S} {us : Upstream} {k : Nat} {x x' : Call × Proxy S} (hw : Reachable N w)
      (hk : w.sessions[k]? = some x) (hcall : CallStep N w.us x us x') :
      Reachable N ⟨us, w.sessions.set k x'⟩
  | event {w : Shared S} {k : Nat} {s : Proxy S} {x' : Call × Proxy S} (hw : Reachable N w)
      (hk : w.sessions[k]? = some (.waiting, s)) (hevent : EventStep N s x') :
      Reachable N { w with sessions := w.sessions.set k x' }

/-- How many sessions hold a peer: it is selected and has not been freed. -/
def holders (w : Shared S) (at_ : Group × Nat) : Nat :=
  w.sessions.countP fun x => x.2.peer.sockaddr = some at_

/-- The counters of the peers are those of the sessions that hold them. -/
structure Balanced (w : Shared S) : Prop where
  ready : w.us.Ready
  sound : ∀ x ∈ w.sessions, x.2.account.Sound w.us x.1
  conns : ∀ at_ conns max_conns, w.us.load at_ = some (conns, max_conns) →
    conns = w.holders at_ ∧ (max_conns ≠ 0 → conns ≤ max_conns)

theorem conns_server_peers {backup : Bool} {servers : List Server} {peer : RrPeer}
    (h : peer ∈ server_peers backup servers) : peer.conns = 0 := by
  obtain ⟨server, -, hpeer⟩ := List.mem_flatMap.mp h
  rw [List.eq_of_mem_replicate hpeer]
  rfl

/-- No peer of a new upstream has connections. -/
theorem conns_of_configured {us : Upstream} (h : us.Configured) {at_ : Group × Nat} {peer : RrPeer}
    (hpeer : us.peer at_ = some peer) : peer.conns = 0 := by
  obtain ⟨peers, hpeers, hget⟩ := Option.bind_eq_some_iff.mp hpeer
  have hmem : peer ∈ peers.peer := List.mem_of_getElem? hget
  obtain ⟨servers, hus⟩ | ⟨naddrs, -, rfl⟩ := h
  · simp only [init_round_robin] at hus
    split at hus
    · cases hus
    split at hus
    · cases hus
      cases hgroup : at_.1 with
      | primary =>
        rw [hgroup] at hpeers
        cases hpeers
        exact conns_server_peers hmem
      | backup =>
        rw [hgroup] at hpeers
        cases hpeers
    · cases hus
      cases hgroup : at_.1 with
      | primary | backup =>
        rw [hgroup] at hpeers
        cases hpeers
        exact conns_server_peers hmem
  · cases hgroup : at_.1 with
    | primary =>
      rw [hgroup] at hpeers
      cases hpeers
      rw [List.eq_of_mem_replicate hmem]
      rfl
    | backup =>
      rw [hgroup] at hpeers
      cases hpeers

theorem balanced_of_configured {us : Upstream} (h : us.Configured) :
    (⟨us, []⟩ : Shared S).Balanced := by
  refine ⟨h.ready, fun _ hx => absurd hx List.not_mem_nil, ?_⟩
  intro at_ conns max_conns hload
  obtain ⟨peer, hpeer, heq⟩ := Option.map_eq_some_iff.mp hload
  cases heq
  have hzero := conns_of_configured h hpeer
  exact ⟨hzero, fun _ => by omega⟩

section

variable {w : Shared S} {k : Nat} {x x' : Call × Proxy S}

/-- One session moves: the holders of a peer change with what this session holds. -/
theorem holders_set (hk : w.sessions[k]? = some x) (us : Upstream) (at_ : Group × Nat) :
    (⟨us, w.sessions.set k x'⟩ : Shared S).holders at_ +
        (if x.2.peer.sockaddr = some at_ then 1 else 0) =
      w.holders at_ + if x'.2.peer.sockaddr = some at_ then 1 else 0 := by
  obtain ⟨hlt, hget⟩ := List.getElem?_eq_some_iff.mp hk
  have hset := List.countP_set (p := fun x => decide (x.2.peer.sockaddr = some at_)) (a := x') hlt
  have hpos : x.2.peer.sockaddr = some at_ → 0 < w.holders at_ := by
    intro hx
    apply List.countP_pos_iff.mpr
    exact ⟨x, List.mem_of_getElem? hk, by simpa using hx⟩
  simp only [hget, decide_eq_true_eq] at hset
  simp only [holders, hset]
  split
  · rename_i hx
    have hpositive := hpos hx
    simp only [holders] at hpositive
    omega
  · omega

theorem Balanced.sound_set (h : w.Balanced) {us : Upstream} (hshape : us.shape = w.us.shape)
    (hx' : x'.2.account.Sound us x'.1) :
    ∀ x ∈ w.sessions.set k x', x.2.account.Sound us x.1 := by
  intro x hx
  obtain hold | rfl := List.mem_or_eq_of_mem_set hx
  · exact (h.sound x hold).congr hshape
  · exact hx'

/-- A step that leaves the account of its session leaves the balance. -/
theorem Balanced.of_keeps (h : w.Balanced) (hk : w.sessions[k]? = some x) {us : Upstream}
    (hkeeps : w.us.Keeps us) (hsockaddr : x'.2.peer.sockaddr = x.2.peer.sockaddr)
    (hsound : x'.2.account.Sound us x'.1) : (⟨us, w.sessions.set k x'⟩ : Shared S).Balanced := by
  refine ⟨h.ready.congr hkeeps.shape, h.sound_set hkeeps.shape hsound, ?_⟩
  intro at_ conns max_conns hload
  have hholders := @holders_set _ w k x x' hk us at_
  rw [hsockaddr] at hholders
  obtain ⟨hconns, hmax⟩ := h.conns at_ conns max_conns (by rw [← hkeeps.load]; exact hload)
  exact ⟨by omega, hmax⟩

theorem Balanced.called (h : w.Balanced) (hk : w.sessions[k]? = some x) {us : Upstream}
    (hmoves : Moves w.us us x.1 x'.1 x.2.account x'.2.account) :
    (⟨us, w.sessions.set k x'⟩ : Shared S).Balanced := by
  have hsound := hmoves.sound (h.sound x (List.mem_of_getElem? hk))
  have hshape := hmoves.step.shape
  have hholders := fun at_ => @holders_set _ w k x x' hk us at_
  have hready := h.ready.congr hshape
  have hsounds := h.sound_set (k := k) hshape hsound
  obtain ⟨hstep, -, -, -⟩ := hmoves
  generalize ha : x.2.account = a at hstep
  generalize ha' : x'.2.account = a' at hstep
  have hold : ∀ at_, x.2.peer.sockaddr = at_ ↔ a.sockaddr = at_ := fun _ => by rw [← ha]; rfl
  have hnew : ∀ at_, x'.2.peer.sockaddr = at_ ↔ a'.sockaddr = at_ := fun _ => by rw [← ha']; rfl
  simp only [hold, hnew] at hholders
  cases hstep with
  | keep hkeeps => exact h.of_keeps hk hkeeps ((hnew _).mpr ((hold _).mp rfl)) hsound
  | busy hnone hkeeps hgroup => exact h.of_keeps hk hkeeps ((hnew _).mpr ((hold _).mp rfl)) hsound
  | @select at_ tried hnone hconnects hlength hmarks hswitch =>
    refine ⟨hready, hsounds, ?_⟩
    intro at' conns' max_conns' hload'
    obtain ⟨conns, max_conns, hload, hopen, hupdate⟩ := hconnects.load
    have hcount := hholders at'
    simp only [hnone, Option.some.injEq, reduceCtorEq, if_false] at hcount
    by_cases hat : at' = at_
    · subst hat
      rw [hupdate, Function.update_self] at hload'
      cases hload'
      obtain ⟨hconns, hmax⟩ := h.conns _ _ _ hload
      rw [if_pos rfl] at hcount
      exact ⟨by omega, by omega⟩
    · rw [hupdate, Function.update_of_ne hat] at hload'
      rw [if_neg (fun h => hat h.symm)] at hcount
      obtain ⟨hconns, hmax⟩ := h.conns _ _ _ hload'
      exact ⟨by omega, hmax⟩
  | @free at_ single n hsome hfrees hgroup =>
    refine ⟨hready, hsounds, ?_⟩
    intro at' conns' max_conns' hload'
    obtain ⟨conns, max_conns, hload, hupdate⟩ := hfrees.load
    have hcount := hholders at'
    simp only [hsome, Option.some.injEq, reduceCtorEq, if_false] at hcount
    by_cases hat : at' = at_
    · subst hat
      rw [hupdate, Function.update_self] at hload'
      cases hload'
      obtain ⟨hconns, hmax⟩ := h.conns _ _ _ hload
      rw [if_pos rfl] at hcount
      have hpos : conns ≠ 0 := by omega
      rw [if_neg hpos]
      exact ⟨by omega, by omega⟩
    · rw [hupdate, Function.update_of_ne hat] at hload'
      rw [if_neg (fun h => hat h.symm)] at hcount
      obtain ⟨hconns, hmax⟩ := h.conns _ _ _ hload'
      exact ⟨by omega, hmax⟩

theorem reachable_balanced {N : NoiseC S} (h : Reachable N w) : w.Balanced := by
  induction h with
  | configured hus => exact balanced_of_configured hus
  | @accepted w hw conf stream notify preread noise prologue mem env ih =>
    obtain ⟨hsound, hnone⟩ := Proxy.sound_proxy_handler w.us conf stream notify preread noise prologue mem env
    refine ⟨ih.ready, ?_, ?_⟩
    · intro x hx
      obtain hx | hx := List.mem_append.mp hx
      · exact ih.sound x hx
      · rw [List.mem_singleton] at hx
        rw [hx]
        exact hsound
    · intro at_ conns max_conns hload
      obtain ⟨hconns, hmax⟩ := ih.conns at_ conns max_conns hload
      refine ⟨?_, hmax⟩
      simp only [holders, List.countP_append, List.countP_singleton, hnone]
      simpa [holders] using hconns
  | called hw hk hcall ih =>
    have hmoves := hcall.moves ih.ready (ih.sound _ (List.mem_of_getElem? hk))
    exact ih.called hk hmoves
  | event hw hk hevent ih =>
    have hsound := hevent.sound (ih.sound _ (List.mem_of_getElem? hk))
    have hsockaddr := congrArg Account.sockaddr hevent.account.1
    exact ih.of_keeps hk (.refl _) hsockaddr hsound

/-- The counter of a peer is the number of sessions that hold it, and within its limit; a
session has freed each peer that it selected once, except for the one it holds, and holds none
at its end. -/
theorem conns_eq_holders {N : NoiseC S} (h : Reachable N w) :
    (∀ at_ peer, w.us.peer at_ = some peer →
      peer.conns = w.holders at_ ∧ (peer.max_conns ≠ 0 → peer.conns ≤ peer.max_conns)) ∧
    ∀ x ∈ w.sessions, x.2.attempts = x.2.peer.sockaddr.toList ++ x.2.freed ∧
      (∀ at_, x.2.peer.sockaddr = some at_ → (w.us.peer at_).isSome = true) ∧
      (x.1 = .ended → x.2.peer.sockaddr = none) := by
  have hbalanced := reachable_balanced h
  constructor
  · intro at_ peer hpeer
    exact hbalanced.conns at_ _ _ (by simp [Upstream.load, hpeer])
  · intro x hx
    have hsound := hbalanced.sound x hx
    refine ⟨hsound.attempts, fun at_ hat => (hsound.current at_ hat).2.2, ?_⟩
    intro hover
    have hholds := hsound.holds
    rwa [hover] at hholds

/-- Two sessions on two peers: the second session gets a connection refused, frees its peer and then
shares the peer of the first. -/
theorem conns_eq_holders_of_two_sessions :
    ∃ w : Shared Pattern, w.sessions.map (fun x => x.2.freed) = [[], [(.primary, 1)]] ∧
      w.holders (.primary, 0) = 2 ∧ w.holders (.primary, 1) = 0 ∧
      ∀ at_ peer, w.us.peer at_ = some peer → peer.conns = w.holders at_ := by
  have hus : (implicit_round_robin 2).Configured := .inr ⟨2, by decide, rfl⟩
  have hfirst := (Reachable.configured (N := pattern_xx) hus).accepted
    ⟨none, false, none, true, 0⟩ true true false ⟨.initiator, 0⟩ proxy_prologue ⟨fun _ => 0, []⟩
    (.quiet [] false)
  have hconnecting := hfirst.called (k := 0) rfl (.connect 0 (.again 7 (.quiet [] false)) rfl)
  have hsecond := hconnecting.accepted ⟨none, false, none, true, 0⟩ true true false ⟨.initiator, 0⟩
    proxy_prologue ⟨fun _ => 0, []⟩ (.quiet [] false)
  have hrefused := hsecond.called (k := 1) rfl (.connect 0 .declined rfl)
  have hfreed := hrefused.called (k := 1) rfl (.next_upstream 0 false rfl)
  have hshared := hfreed.called (k := 1) rfl (.connect 0 (.connected 8 (.quiet [] false)) rfl)
  exact ⟨_, by decide, by decide, by decide,
    fun at_ peer hpeer => ((conns_eq_holders hshared).1 at_ peer hpeer).1⟩

end

end Shared

end ngx_nsoc_proxy
