import NoiseSocket.Proxy.Tries.Run
import NoiseSocket.Upstream.Alike

open Exec Exec.Result

namespace ngx_nsoc_upstream

/-- What a call of a session may do to the peers but select one: it changes the current one. -/
def Upstream.Touched (us us' : Upstream) (data : RrPeerData) : Prop :=
  us' = us ∨ ∃ at_ f, data.current = some at_ ∧ us' = us.modify at_ f ∧
    (∀ peer : RrPeer, (f peer).down = peer.down) ∧ ∀ peer : RrPeer, (f peer).max_conns = peer.max_conns

theorem RrPeer.down_live (peer : RrPeer) : peer.live.down = peer.down := by
  unfold RrPeer.live
  split <;> rfl

theorem notify_round_robin_peer_touched {us us' : Upstream} {pc : PeerConnection}
    (h : notify_round_robin_peer us pc = ok us') : us.Touched us' pc.data := by
  unfold notify_round_robin_peer at h
  cases hcurrent : pc.data.current with
  | none => simp [hcurrent] at h
  | some at_ =>
    simp only [hcurrent] at h
    cases h
    exact .inr ⟨at_, RrPeer.live, hcurrent, rfl, RrPeer.down_live, RrPeer.max_conns_live⟩

theorem free_round_robin_peer_touched {now : Int} {us : Upstream} {pc : PeerConnection} {failed : Bool}
    {r : Upstream × PeerConnection} (h : free_round_robin_peer now us pc failed = ok r) :
    us.Touched r.1 pc.data ∧ r.2.data = pc.data := by
  unfold free_round_robin_peer at h
  split at h
  · rename_i current peers hcurrent hpeers
    split at h
    · cases h
      exact ⟨.inr ⟨current, RrPeer.disconnect, hcurrent, rfl, fun _ => rfl, fun _ => rfl⟩, rfl⟩
    · cases h
      refine ⟨.inr ⟨current, _, hcurrent, rfl, ?_, ?_⟩, rfl⟩
      · intro peer
        cases failed with
        | true => rfl
        | false => exact peer.down_live
      · intro peer
        cases failed with
        | true => rfl
        | false => exact peer.max_conns_live
  · cases h

end ngx_nsoc_upstream

namespace ngx_nsoc_proxy

open ngx_nsoc ngx_nsoc_upstream

variable {S : Type}

namespace Proxy

variable {us us' : Upstream} {s s' : Proxy S} {call : Call}

theorem free_peer_touched {now : Int} {failed : Bool} {r : Upstream × Proxy S}
    (h : s.free_peer now failed us = ok r) :
    us.Touched r.1 s.peer.data ∧ r.2.peer.data = s.peer.data ∧ r.2.attempts = s.attempts := by
  unfold free_peer at h
  split at h
  · cases h
    exact ⟨.inl rfl, rfl, rfl⟩
  · obtain ⟨q, hfree, h⟩ := bind_eq_ok_iff.mp h
    obtain ⟨htouched, hdata⟩ := free_round_robin_peer_touched hfree
    cases h
    exact ⟨htouched, hdata, rfl⟩

/-- Two sessions with the same account agree on the bits and on the attempts. -/
theorem data_of_account (h : s'.account = s.account) :
    s'.peer.data = s.peer.data ∧ s'.attempts = s.attempts :=
  ⟨congrArg Account.data h, congrArg Account.attempts h⟩

theorem init_upstream_touched {nodelay : Bool} (h : s.init_upstream nodelay us = ok (call, us', s')) :
    us.Touched us' s.peer.data ∧ s'.account = s.account := by
  unfold init_upstream at h
  split at h
  · cases h
  rename_i pc hpc
  simp only at h
  split at h
  · cases h
    exact ⟨.inl rfl, s.account_set_nodelay nodelay⟩
  split at h
  · cases h
    exact ⟨.inl rfl, s.account_set_nodelay nodelay⟩
  obtain ⟨us₁, hnotify, h⟩ := bind_eq_ok_iff.mp h
  have hdata : (s.set_nodelay nodelay).2.peer.data = s.peer.data :=
    (data_of_account (s.account_set_nodelay nodelay)).1
  have htouched : us.Touched us₁ s.peer.data := by
    unfold notify_peer at hnotify
    split at hnotify
    · rw [← hdata]
      exact notify_round_robin_peer_touched hnotify
    · cases hnotify
      exact .inl rfl
  simp only at h
  split at h
  · cases h
    exact ⟨htouched, by simp⟩
  split at h
  · cases h
    exact ⟨htouched, by simp⟩
  · cases h
    exact ⟨htouched, by simp⟩

theorem noise_init_connection_account {N : NoiseC S} {fuel : Nat}
    (h : s.noise_init_connection N fuel = ok (call, s')) : s'.account = s.account := by
  unfold noise_init_connection at h
  split at h
  · rename_i pc noise hpc hnoise
    simp only at h
    split at h
    · cases h
      exact account_create_connection pc noise s
    obtain ⟨r, hr, h⟩ := bind_eq_ok_iff.mp h
    have haccount : r.2.account = s.account :=
      (account_handshake hr).trans (account_create_connection pc noise s)
    split at h
    · cases h
      exact haccount
    · cases h
      exact haccount
  · cases h

theorem noise_handshake_account (h : s.noise_handshake = ok (call, s')) : s'.account = s.account := by
  unfold noise_handshake at h
  split at h
  · cases h
  · split at h
    · cases h
      rfl
    · cases h
      rfl

theorem process_account (answer : ProcessAnswer) (from_upstream : Bool) (s : Proxy S) :
    (s.process answer from_upstream).2.account = s.account := by
  rw [← account_relay answer from_upstream s]
  unfold process
  cases answer.exit <;> rfl

/-- A session with peers of its own tries the next of them, or has no room to take note of it. -/
theorem proxy_connect_own {n k : Nat} {now : Int} {answer : ConnectAnswer} (hown : Own n k us s.peer.data)
    (hk : k < n) (h : s.proxy_connect now answer us = ok (call, us', s')) :
    (us' = us ∧ s'.peer.data = s.peer.data ∧ s'.attempts = s.attempts) ∨
    (Own n (k + 1) us' s'.peer.data ∧ s'.peer.data.current = some (.primary, k) ∧
      s'.attempts = (.primary, k) :: s.attempts) := by
  simp only [proxy_connect] at h
  split at h
  · cases h
    exact .inl ⟨rfl, rfl, rfl⟩
  obtain ⟨us₁, tried, hget, hown'⟩ := hown.get now hk
  have hget' : get_round_robin_peer now us ({ s with connected := false }.ngx_alloc).2.peer = ok _ := hget
  obtain ⟨r, hr, h⟩ := bind_eq_ok_iff.mp h
  simp only [ngx_event_connect_peer, hget', bind_ok] at hr
  right
  cases answer with
  | error =>
    cases hr
    cases h
    exact ⟨hown', rfl, rfl⟩
  | declined =>
    cases hr
    cases h
    exact ⟨hown', rfl, rfl⟩
  | again id env =>
    cases hr
    cases h
    exact ⟨hown', rfl, rfl⟩
  | connected id env =>
    cases hr
    cases h
    exact ⟨hown', rfl, rfl⟩

end Proxy

/-- A call that does not connect leaves all peers as they are but the current one, and goes on with
the attempts made so far. -/
theorem CallStep.touched {N : NoiseC S} {us us' : Upstream} {x x' : Call × Proxy S}
    (h : CallStep N us x us' x') (hne : x.1 ≠ .connect) :
    us.Touched us' x.2.peer.data ∧ x'.2.peer.data = x.2.peer.data ∧ x'.2.attempts = x.2.attempts := by
  cases h with
  | connect now answer h => exact absurd rfl hne
  | init_upstream nodelay h =>
    obtain ⟨htouched, haccount⟩ := Proxy.init_upstream_touched h
    exact ⟨htouched, Proxy.data_of_account haccount⟩
  | noise_init_connection fuel h =>
    exact ⟨.inl rfl, Proxy.data_of_account (Proxy.noise_init_connection_account h)⟩
  | noise_handshake h => exact ⟨.inl rfl, Proxy.data_of_account (Proxy.noise_handshake_account h)⟩
  | process answer from_upstream do_write =>
    exact ⟨.inl rfl, Proxy.data_of_account (Proxy.process_account answer from_upstream _)⟩
  | next_upstream now expired h =>
    unfold Proxy.next_upstream at h
    split at h
    · cases h
      exact ⟨.inl rfl, rfl, rfl⟩
    obtain ⟨r, hfree, h⟩ := bind_eq_ok_iff.mp h
    obtain ⟨htouched, hdata, hattempts⟩ := Proxy.free_peer_touched hfree
    split at h
    · cases h
      exact ⟨htouched, hdata, hattempts⟩
    · cases h
      exact ⟨htouched, hdata, hattempts⟩
  | finalize now h =>
    obtain ⟨r, hfree, h⟩ := bind_eq_ok_iff.mp h
    obtain ⟨htouched, hdata, hattempts⟩ := Proxy.free_peer_touched hfree
    cases h
    exact ⟨htouched, hdata, hattempts⟩

section

variable {us us' : Upstream} {n limit : Nat} {a a' : Account}

/-- The only connection to one of the `n` peers is that to the peer that is held. -/
def Held (n : Nat) (us : Upstream) (sockaddr : Option (Group × Nat)) : Prop :=
  ∀ a, us.load a =
    if a.1 = .primary ∧ a.2 < n then some (if sockaddr = some a then 1 else 0, 0) else none

theorem held_implicit_round_robin (n : Nat) : Held n (implicit_round_robin n) none := by
  rintro ⟨g, p⟩
  cases g with
  | backup => simp [Upstream.load, Upstream.peer, Upstream.peers, implicit_round_robin]
  | primary =>
    simp only [Upstream.load, Upstream.peer, Upstream.peers, implicit_round_robin, Option.bind_some,
      List.getElem?_replicate]
    by_cases hp : p < n
    · simp [hp, Server.peer]
    · simp [hp]

theorem Held.step (h : Held n us a.sockaddr) (hstep : Account.Step us us' a a') :
    Held n us' a'.sockaddr := by
  cases hstep with
  | keep hkeeps =>
    intro x
    rw [hkeeps.load]
    exact h x
  | busy hnone hkeeps hgroup =>
    intro x
    rw [hkeeps.load]
    exact h x
  | @select at_ tried hnone hconnects hlength hmarks hswitch =>
    obtain ⟨conns, max_conns, hload, -, hload'⟩ := hconnects.load
    have hat := h at_
    rw [hload, hnone] at hat
    intro x
    rw [hload']
    by_cases hx : x = at_
    · subst hx
      rw [Function.update_self]
      by_cases hpeer : x.1 = .primary ∧ x.2 < n
      · simp only [hpeer, and_self, if_true, Option.some.injEq, Prod.mk.injEq] at hat ⊢
        simpa using hat
      · simp [hpeer] at hat
    · rw [Function.update_of_ne hx, h x, hnone]
      have hne : ¬ at_ = x := fun heq => hx heq.symm
      simp [hne]
  | @free at_ single m hsome hfrees hshape =>
    obtain ⟨conns, max_conns, hload, hload'⟩ := hfrees.load
    have hat := h at_
    rw [hload, hsome] at hat
    intro x
    rw [hload']
    by_cases hx : x = at_
    · subst hx
      rw [Function.update_self]
      by_cases hpeer : x.1 = .primary ∧ x.2 < n
      · simp only [hpeer, and_self, if_true, Option.some.injEq, Prod.mk.injEq] at hat ⊢
        simp [hat.1, hat.2]
      · simp [hpeer] at hat
    · rw [Function.update_of_ne hx, h x, hsome]
      have hne : ¬ at_ = x := fun heq => hx heq.symm
      simp [hne]

/-- A session that has tried the first of its own peers, one behind the other. -/
structure Owned (n limit : Nat) (us : Upstream) (x : Call × Proxy S) : Prop where
  going : Going limit us x
  le : limit ≤ n
  own : Own n x.2.attempts.length us x.2.peer.data
  current : x.2.peer.data.current = x.2.attempts.head?
  order : x.2.attempts.reverse = (List.range x.2.attempts.length).map (Prod.mk .primary)
  held : Held n us x.2.peer.sockaddr

/-- There are tries for as many peers as there are, and one is left where another is made. -/
theorem Going.attempts_le {x : Call × Proxy S} (h : Going limit us x) :
    x.2.attempts.length ≤ limit ∧ (x.1 = .connect → x.2.attempts.length < limit) := by
  have htries : x.2.freed.length + x.2.peer.tries ≤ limit := h.tried.tries
  have hattempts : x.2.attempts = x.2.peer.sockaddr.toList ++ x.2.freed := h.sound.attempts
  have hpositive : x.1 = .connect ∨ x.2.peer.sockaddr.isSome = true → 1 ≤ x.2.peer.tries :=
    h.tried.positive
  constructor
  · rw [hattempts, List.length_append]
    cases hsockaddr : x.2.peer.sockaddr with
    | none =>
      simp only [Option.toList_none, List.length_nil]
      omega
    | some at_ =>
      have hpos := hpositive (.inr (by rw [hsockaddr]; rfl))
      simp only [Option.toList_some, List.length_singleton]
      omega
  · intro hcall
    have hpos := hpositive (.inl hcall)
    have hnone : x.2.peer.sockaddr = none := by
      have hholds : x.1.Holds x.2.peer.sockaddr := h.sound.holds
      rw [hcall] at hholds
      exact hholds
    rw [hattempts, hnone, Option.toList_none, List.nil_append]
    omega

/-- The peer tried last is the last of those that have been tried. -/
theorem Owned.last {x : Call × Proxy S} (h : Owned n limit us x) {at_ : Group × Nat}
    (hcurrent : x.2.peer.data.current = some at_) :
    ∃ p, at_ = (.primary, p) ∧ p < x.2.attempts.length := by
  have hhead := h.current.symm.trans hcurrent
  have horder := h.order
  cases hattempts : x.2.attempts with
  | nil => simp [hattempts] at hhead
  | cons b rest =>
    rw [hattempts] at hhead horder
    obtain rfl : b = at_ := by simpa using hhead
    rw [List.reverse_cons, List.length_cons, List.range_succ, List.map_append] at horder
    obtain ⟨-, hlast⟩ := List.append_inj' horder rfl
    refine ⟨rest.length, by simpa using hlast, by simp⟩

theorem Owned.called {N : NoiseC S} {x x' : Call × Proxy S} (h : Owned n limit us x)
    (hcall : CallStep N us x us' x') : Owned n limit us' x' := by
  have hgoing := h.going.called hcall
  have hheld : Held n us' x'.2.peer.sockaddr :=
    Held.step (a := x.2.account) h.held (hcall.moves h.going.ready h.going.sound).step
  by_cases hconnect : x.1 = .connect
  · have hlt := h.going.attempts_le.2 hconnect
    obtain ⟨call, s⟩ := x
    obtain rfl : call = .connect := hconnect
    cases hcall with
    | connect now answer hanswer =>
      obtain ⟨rfl, hdata, hattempts⟩ | ⟨hown, hcurrent, hattempts⟩ :=
        Proxy.proxy_connect_own h.own (Nat.lt_of_lt_of_le hlt h.le) hanswer
      · exact ⟨hgoing, h.le, by rw [hdata, hattempts]; exact h.own,
          by rw [hdata, hattempts]; exact h.current, by rw [hattempts]; exact h.order, hheld⟩
      · refine ⟨hgoing, h.le, by rw [hattempts]; exact hown, by rw [hcurrent, hattempts]; rfl, ?_, hheld⟩
        have horder : s.attempts.reverse = (List.range s.attempts.length).map (Prod.mk .primary) := h.order
        rw [hattempts, List.reverse_cons, horder, List.length_cons, List.range_succ, List.map_append]
        rfl
  · obtain ⟨htouched, hdata, hattempts⟩ := hcall.touched hconnect
    refine ⟨hgoing, h.le, ?_, by rw [hdata, hattempts]; exact h.current,
      by rw [hattempts]; exact h.order, hheld⟩
    rw [hdata, hattempts]
    obtain rfl | ⟨at_, f, hcurrent, rfl, hdown, hmax⟩ := htouched
    · exact h.own
    · obtain ⟨p, rfl, hp⟩ := h.last hcurrent
      exact h.own.modify (fun _ => hp) hdown hmax

theorem Owned.event {N : NoiseC S} {s : Proxy S} {x' : Call × Proxy S}
    (h : Owned n limit us (.waiting, s)) (hevent : EventStep N s x') : Owned n limit us x' := by
  have haccount := hevent.account.1
  obtain ⟨hdata, hattempts⟩ := Proxy.data_of_account haccount
  have hsockaddr : x'.2.peer.sockaddr = s.peer.sockaddr := congrArg Account.sockaddr haccount
  exact ⟨h.going.event hevent, h.le, by rw [hdata, hattempts]; exact h.own,
    by rw [hdata, hattempts]; exact h.current, by rw [hattempts]; exact h.order,
    by rw [hsockaddr]; exact h.held⟩

/-- A session whose peers have just been made. -/
theorem owned_create {s : Proxy S} {tries : Nat} (hn : 0 < n) (hpos : 1 ≤ tries) (hle : tries ≤ n)
    (hattempts : s.attempts = []) (hfreed : s.freed = []) :
    Owned n tries (implicit_round_robin n) (.connect, { s with
      peer := { init_round_robin_peer (implicit_round_robin n) with tries } }) := by
  refine ⟨⟨ready_implicit_round_robin hn, ⟨rfl, .inr (.inr (fits_init_round_robin_peer _)), ?_, ?_, rfl⟩,
    ⟨?_, .inr (.inr ⟨?_, ?_⟩), ?_, fun _ => hpos, fun _ => .inl hfreed⟩⟩, hle, ?_, ?_, ?_,
    held_implicit_round_robin n⟩
  · intro at_ hat
    cases hat
  · simp [Proxy.account, hattempts, hfreed, init_round_robin_peer]
  · simp [Proxy.account, hattempts]
  · intro _ a ha
    simp [Proxy.account, hattempts] at ha
  · intro _ a ha
    simp [Proxy.account, hattempts] at ha
  · simp [Proxy.account, hfreed]
  · simp only [hattempts]
    exact own_implicit_round_robin n
  · simp [hattempts, init_round_robin_peer]
  · simp [hattempts]

end

end ngx_nsoc_proxy
