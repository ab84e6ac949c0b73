import NoiseSocket.Proxy.Resolved
import NoiseSocket.Proxy.Resolved.Own

open Exec Exec.Result

namespace ngx_nsoc_proxy

open ngx_nsoc ngx_nsoc_upstream

variable {S : Type}

/-- The account of a session that has no peers. -/
def no_account : Account := ⟨none, 0, ⟨.primary, none, []⟩, [], []⟩

namespace Proxy

/-- A session that has no peers and relays nothing. -/
def Idle (conf : SrvConf) (s : Proxy S) : Prop :=
  s.account = no_account ∧ s.conf = conf ∧ s.connected = false

theorem Idle.ngx_allocs {conf : SrvConf} {s : Proxy S} (h : s.Idle conf) (n : Nat) :
    (s.ngx_allocs n).2.Idle conf := by
  induction n generalizing s with
  | zero => exact h
  | succ n ih =>
    unfold Proxy.ngx_allocs
    split
    · exact ih h
    · exact h

theorem Idle.process {conf : SrvConf} {s : Proxy S} (h : s.Idle conf) (answer : ProcessAnswer)
    (from_upstream : Bool) : (s.process answer from_upstream).2.Idle conf := by
  have hrelay : (s.relay answer from_upstream).Idle conf := by
    refine ⟨(account_relay answer from_upstream s).trans h.1, ?_⟩
    have hconnected := h.2.2
    unfold relay
    simp only
    split
    · exact h.2
    · rw [if_neg (by simp [hconnected])]
      exact h.2
  unfold Proxy.process
  cases answer.exit <;> exact hrelay

end Proxy

namespace Dynamic

variable {N : NoiseC S} {upstreams : List UpstreamSrvConf} {core : Surroundings} {s₀ : Proxy S}
  {d d' : Dynamic S} {us' : Upstream} {x' : Call × Proxy S}

/-- A session that has no peers: it waits for the resolver, or it comes to its end. -/
structure Peerless (conf : SrvConf) (d : Dynamic S) : Prop where
  us : d.us = no_peers
  idle : d.proxy.Idle conf
  call : ((d.call = .waiting ∨ ∃ do_write, d.call = .process false do_write) ∧ d.looking = true) ∨
    d.call = .next_upstream ∨ d.call = .finalize ∨ d.call = .ended

/-- What holds of a session with peers of its own: no configured upstream has the name that it was
given, and no lookup outlives it. -/
structure Sound (upstreams : List UpstreamSrvConf) (conf : SrvConf) (d : Dynamic S) : Prop where
  unnamed : ∀ ur, d.resolved = some ur → find_upstream upstreams ur.url = none
  lookups : d.done + (if d.looking then 1 else 0) = d.started
  once : d.started ≤ 1
  ended : d.call = .ended → d.looking = false
  peers : d.Peerless conf ∨ (d.looking = false ∧
    Owned d.addresses.length (Proxy.SrvConf.tries conf d.addresses.length) d.us (d.call, d.proxy))

end Dynamic

theorem sound_refuse {upstreams : List UpstreamSrvConf} {conf : SrvConf} {s : Proxy S}
    {ur : Option Resolved} (hs : s.Idle conf) (hur : ∀ r, ur = some r → find_upstream upstreams r.url = none)
    (hctx : ∀ r, ur = some r → r.ctx = false) (n : Nat) (hn : n ≤ 1) :
    Dynamic.Sound upstreams conf { s.refuse ur with started := n, done := n } := by
  have hlooking : ur.any Resolved.ctx = false := by
    cases ur with
    | none => rfl
    | some r => exact hctx r rfl
  refine ⟨hur, ?_, hn, by rintro ⟨⟩, .inl ⟨rfl, hs, .inr (.inr (.inl rfl))⟩⟩
  simp [Dynamic.looking, Proxy.refuse, hlooking]

theorem tries_le (conf : SrvConf) (n : Nat) : Proxy.SrvConf.tries conf n ≤ n := by
  unfold Proxy.SrvConf.tries
  split <;> omega

theorem tries_pos (conf : SrvConf) {n : Nat} (hn : 0 < n) : 1 ≤ Proxy.SrvConf.tries conf n := by
  unfold Proxy.SrvConf.tries
  split <;> omega

/-- The peers that a session makes for itself. -/
theorem Proxy.create_round_robin_peer_cases {conf : SrvConf} {s : Proxy S} (hs : s.Idle conf)
    (ur : Resolved) :
    ((s.create_round_robin_peer ur).1 = NGX_ERROR ∧ (s.create_round_robin_peer ur).2.2.Idle conf) ∨
    ∃ s' : Proxy S, s.create_round_robin_peer ur = (NGX_OK, implicit_round_robin ur.addresses.length, { s' with
      peer := init_round_robin_peer (implicit_round_robin ur.addresses.length) }) ∧ s'.Idle conf := by
  have hidle := hs.ngx_allocs ur.blocks
  unfold create_round_robin_peer
  simp only
  split
  · exact .inl ⟨rfl, hidle⟩
  · exact .inr ⟨_, rfl, hidle⟩

theorem Proxy.Idle.lists {conf : SrvConf} {s : Proxy S} (h : s.Idle conf) :
    s.attempts = [] ∧ s.freed = [] ∧ s.peer.sockaddr = none ∧ s.peer.tries = 0 :=
  ⟨congrArg Account.attempts h.1, congrArg Account.freed h.1, congrArg Account.sockaddr h.1,
    congrArg Account.tries h.1⟩

theorem Proxy.Idle.proxy_eval {conf : SrvConf} {s : Proxy S} (h : s.Idle conf) (core : Surroundings) :
    (s.proxy_eval core).2.Idle conf ∧ ∀ ur, (s.proxy_eval core).1 = some ur → ur.ctx = false := by
  unfold Proxy.proxy_eval
  split
  · exact ⟨h, by rintro ur ⟨⟩⟩
  split
  · exact ⟨h, by rintro ur ⟨⟩⟩
  simp only
  split
  · exact ⟨h, by rintro ur ⟨⟩⟩
  · exact ⟨h, by rintro ur ⟨⟩; rfl⟩

namespace Dynamic

variable {N : NoiseC S} {upstreams : List UpstreamSrvConf} {core : Surroundings} {s₀ : Proxy S}
  {conf : SrvConf} {d d' : Dynamic S} {us' : Upstream} {x' : Call × Proxy S}

theorem sound_proxy_resolve {s : Proxy S} (hs : s.Idle conf) {ur : Resolved}
    (hur : find_upstream upstreams ur.url = none) (hctx : ur.ctx = false) :
    (s.proxy_resolve core ur).Sound upstreams conf := by
  have hrefuse : ∀ {s' : Proxy S} (n : Nat), s'.Idle conf → n ≤ 1 →
      Sound upstreams conf { s'.refuse (some ur) with started := n, done := n } := by
    intro s' n hs' hn
    apply sound_refuse hs' _ _ n hn
    · rintro r ⟨⟩
      exact hur
    · rintro r ⟨⟩
      exact hctx
  unfold Proxy.proxy_resolve
  split
  · rename_i sockaddr hsockaddr
    split
    · exact hrefuse 0 hs (Nat.zero_le 1)
    obtain ⟨hcode, hidle⟩ | ⟨s', hcreate, hidle⟩ := Proxy.create_round_robin_peer_cases hs ur
    · simp only [hcode]
      exact hrefuse 0 hidle (Nat.zero_le 1)
    · have haddresses : ur.addresses.length = 1 := by simp [Resolved.addresses, hsockaddr]
      have howned : Owned 1 1 (implicit_round_robin 1) (.connect, { s' with
          peer := { init_round_robin_peer (implicit_round_robin 1) with tries := 1 } }) :=
        owned_create Nat.one_pos (Nat.le_refl 1) (Nat.le_refl 1) hidle.lists.1 hidle.lists.2.1
      rw [hcreate]
      simp only [ne_eq, not_true_eq_false, if_false]
      refine ⟨by rintro r ⟨⟩; exact hur, by simp [looking, hctx], Nat.zero_le 1, by rintro ⟨⟩,
        .inr ⟨by simp [looking, hctx], ?_⟩⟩
      have htries : Proxy.SrvConf.tries conf 1 = 1 :=
        Nat.le_antisymm (tries_le conf 1) (tries_pos conf Nat.one_pos)
      simp only [addresses, Option.map_some, Option.getD_some, haddresses, htries]
      exact howned
  · split
    · exact hrefuse 0 hs (Nat.zero_le 1)
    split
    · exact hrefuse 0 hs (Nat.zero_le 1)
    · exact hrefuse 0 hs (Nat.zero_le 1)
    · exact hrefuse 1 hs (Nat.le_refl 1)
    · refine ⟨by rintro r ⟨⟩; exact hur, by simp [looking], Nat.le_refl 1, by rintro ⟨⟩,
        .inl ⟨rfl, hs, .inl ⟨.inl rfl, by simp [looking]⟩⟩⟩

/-- A session that is handled has no peers, or new ones. -/
theorem sound_proxy_handler_value (hs₀ : s₀.Idle conf)
    (h : s₀.proxy_handler_value upstreams core = .dynamic d) : d.Sound upstreams conf := by
  have hrefuse : ∀ {s' : Proxy S}, s'.Idle conf → (s'.refuse none).Sound upstreams conf := by
    intro s' hs'
    exact sound_refuse hs' (by rintro r ⟨⟩) (by rintro r ⟨⟩) 0 (Nat.zero_le 1)
  unfold Proxy.proxy_handler_value at h
  simp only at h
  split at h
  · cases h
    exact hrefuse hs₀
  split at h
  · cases h
    exact hrefuse hs₀
  have hbuf : (if s₀.stream = true then s₀.ngx_alloc.2.ngx_alloc else (true, s₀.ngx_alloc.2)).2.Idle
      conf := by
    split <;> exact hs₀
  generalize (if s₀.stream = true then s₀.ngx_alloc.2.ngx_alloc else (true, s₀.ngx_alloc.2)) = buf
    at h hbuf
  split at h
  · cases h
    exact hrefuse hbuf
  obtain ⟨heval, hnew⟩ := hbuf.proxy_eval core
  split at h
  · cases h
    exact hrefuse heval
  · rename_i ur hur
    split at h
    · cases h
    · rename_i hfind
      cases h
      exact sound_proxy_resolve heval hfind (hnew ur hur)

theorem put_of_ne (hcall : d.call ≠ .finalize) (us' : Upstream) (x' : Call × Proxy S) :
    d.put us' x' = { d with call := x'.1, proxy := x'.2, us := us' } := by
  unfold put
  rw [if_neg hcall]

/-- A session that has no peers waits on, or turns to its end. -/
theorem Peerless.called (h : d.Peerless conf) (hne : d.call ≠ .finalize)
    (hcall : CallStep N d.us (d.call, d.proxy) us' x') :
    us' = no_peers ∧ x'.2.Idle conf ∧
      ((x'.1 = .waiting ∧ d.looking = true) ∨ x'.1 = .next_upstream ∨ x'.1 = .finalize) := by
  obtain ⟨-, -, hsockaddr, htries⟩ := h.idle.lists
  have hidle := h.idle
  have hstands := h.call
  rw [h.us] at hcall
  generalize d.call = call at hcall hstands hne
  generalize d.proxy = s at hcall hidle hsockaddr htries
  cases hcall with
  | connect now answer hanswer => simp at hstands
  | init_upstream nodelay hanswer => simp at hstands
  | noise_init_connection fuel hanswer => simp at hstands
  | noise_handshake hanswer => simp at hstands
  | process answer from_upstream do_write =>
    have hboth : from_upstream = false ∧ d.looking = true := by simpa using hstands
    refine ⟨rfl, hidle.process answer from_upstream, ?_⟩
    unfold Proxy.process
    cases answer.exit with
    | returned => exact .inl ⟨rfl, hboth.2⟩
    | finalize => exact .inr (.inr rfl)
    | next_upstream =>
      simp only
      split
      · exact .inr (.inr rfl)
      · exact .inr (.inl rfl)
  | next_upstream now expired hanswer =>
    have hfree : s.free_peer now true no_peers = ok (no_peers, s) := by
      simp [Proxy.free_peer, hsockaddr]
    simp only [Proxy.next_upstream, hfree, bind_ok, htries, true_or, if_true, ite_self] at hanswer
    cases hanswer
    exact ⟨rfl, hidle, .inr (.inr rfl)⟩
  | finalize now hanswer => exact absurd rfl hne

theorem Peerless.finalized (h : d.Peerless conf) (hfinalize : d.call = .finalize)
    (hcall : CallStep N d.us (d.call, d.proxy) us' x') :
    us' = no_peers ∧ x'.2.Idle conf ∧ x'.1 = .ended := by
  obtain ⟨-, -, hsockaddr, -⟩ := h.idle.lists
  have hidle := h.idle
  rw [h.us, hfinalize] at hcall
  generalize d.proxy = s at hcall hidle hsockaddr
  cases hcall with
  | finalize now hanswer =>
    have hfree : s.free_peer now false no_peers = ok (no_peers, s) := by
      simp [Proxy.free_peer, hsockaddr]
    simp only [Proxy.finalize, hfree, bind_ok] at hanswer
    cases hanswer
    exact ⟨rfl, hidle, rfl⟩

theorem looking_release (d : Dynamic S) : d.release.looking = false := by
  unfold release
  split
  · cases d.resolved <;> simp [looking]
  · rename_i hlooking
    simpa using hlooking

theorem release_eq (h : d.looking = false) : d.release = d := by
  unfold release
  rw [if_neg (by simp [h])]

/-- A lookup that is given up has come to its end. -/
theorem Sound.release (h : d.Sound upstreams conf) :
    (∀ ur, d.release.resolved = some ur → find_upstream upstreams ur.url = none) ∧
      d.release.done + (if d.release.looking then 1 else 0) = d.release.started ∧
      d.release.started = d.started := by
  have hlookups := h.lookups
  rw [looking_release]
  unfold Dynamic.release
  split
  · rename_i hlooking
    refine ⟨?_, by simpa [hlooking] using hlookups, rfl⟩
    intro ur hur
    obtain ⟨old, hold, rfl⟩ := Option.map_eq_some_iff.mp hur
    exact h.unnamed old hold
  · rename_i hlooking
    exact ⟨h.unnamed, by simpa [hlooking] using hlookups, rfl⟩

theorem Sound.called (h : d.Sound upstreams conf) (hcall : CallStep N d.us (d.call, d.proxy) us' x') :
    (d.put us' x').Sound upstreams conf := by
  obtain hpeerless | ⟨hlooking, howned⟩ := h.peers
  · by_cases hfinalize : d.call = .finalize
    · obtain ⟨rfl, hidle, hended⟩ := hpeerless.finalized hfinalize hcall
      obtain ⟨hunnamed, hlookups, hstarted⟩ := h.release
      have hput : d.put no_peers x' = { d.release with call := x'.1, proxy := x'.2, us := no_peers } := by
        unfold put
        rw [if_pos hfinalize]
      rw [hput]
      exact ⟨hunnamed, hlookups, hstarted ▸ h.once, fun _ => looking_release d,
        .inl ⟨rfl, hidle, .inr (.inr (.inr hended))⟩⟩
    · obtain ⟨rfl, hidle, hnext⟩ := hpeerless.called hfinalize hcall
      rw [put_of_ne hfinalize]
      refine ⟨h.unnamed, h.lookups, h.once, ?_, .inl ⟨rfl, hidle, ?_⟩⟩
      · intro hended
        obtain ⟨hcall', -⟩ | hcall' | hcall' := hnext
        all_goals exact absurd (hended.symm.trans hcall') (by rintro ⟨⟩)
      · obtain ⟨hcall', hlooking⟩ | hcall' | hcall' := hnext
        · exact .inl ⟨.inl hcall', hlooking⟩
        · exact .inr (.inl hcall')
        · exact .inr (.inr (.inl hcall'))
  · have howned' := howned.called hcall
    have hput : d.put us' x' = { d with call := x'.1, proxy := x'.2, us := us' } := by
      unfold put
      rw [release_eq hlooking, ite_self]
    rw [hput]
    exact ⟨h.unnamed, h.lookups, h.once, fun _ => hlooking, .inr ⟨hlooking, howned'⟩⟩

/-- While the resolver looks for the peers there is none. -/
theorem Sound.peerless (h : d.Sound upstreams conf) (hlooking : d.looking = true) : d.Peerless conf := by
  obtain hpeerless | ⟨hfound, -⟩ := h.peers
  · exact hpeerless
  · rw [hfound] at hlooking
    cases hlooking

theorem Sound.event (h : d.Sound upstreams conf) (hwaiting : d.call = .waiting)
    (hlooking : d.looking = false) (hevent : EventStep N d.proxy x') :
    (d.put d.us x').Sound upstreams conf := by
  have hne : d.call ≠ .finalize := by
    rw [hwaiting]
    rintro ⟨⟩
  rw [put_of_ne hne]
  obtain hpeerless | ⟨-, howned⟩ := h.peers
  · have hstands := hpeerless.call
    simp [hwaiting, hlooking] at hstands
  · rw [hwaiting] at howned
    exact ⟨h.unnamed, h.lookups, h.once, fun _ => hlooking, .inr ⟨hlooking, howned.event hevent⟩⟩

/-- A client that is heard of while the resolver is at work makes the session read, or ends it. -/
theorem Sound.downstream_handler (h : d.Sound upstreams conf) (hlooking : d.looking = true)
    {ev : Proxy.ProxyEvent} (htimer : ev.timedout = true → ev.delayed = true) :
    Sound upstreams conf { d with call := d.proxy.process_connection ev ev.write } := by
  have hpeerless := h.peerless hlooking
  have hconnected : d.proxy.connected = false := hpeerless.idle.2.2
  have hcall : (d.proxy.process_connection ev ev.write = .waiting ∨
      ∃ do_write, d.proxy.process_connection ev ev.write = .process false do_write) ∨
      d.proxy.process_connection ev ev.write = .finalize := by
    have hrearm : ((if ev.handled then Call.waiting else .finalize) = .waiting ∨
        ∃ do_write, (if ev.handled then Call.waiting else .finalize) = .process false do_write) ∨
        (if ev.handled then Call.waiting else .finalize) = .finalize := by
      cases ev.handled <;> simp
    have hrun : (if ev.write = true ∧ ¬ d.proxy.connected = true then Call.waiting
          else .process ev.write ev.write) = .waiting ∨
        ∃ do_write, (if ev.write = true ∧ ¬ d.proxy.connected = true then Call.waiting
          else .process ev.write ev.write) = .process false do_write := by
      cases ev.write <;> simp [hconnected]
    simp only [Proxy.process_connection]
    cases hexpired : ev.timedout with
    | true =>
      simp only [htimer hexpired, if_true]
      split
      · exact .inl hrun
      · exact hrearm
    | false =>
      simp only [Bool.false_eq_true, if_false]
      split
      · exact hrearm
      · exact .inl hrun
  refine ⟨h.unnamed, h.lookups, h.once, ?_, .inl ⟨hpeerless.us, hpeerless.idle, ?_⟩⟩
  · intro hended
    obtain (hcall | ⟨do_write, hcall⟩) | hcall := hcall
    all_goals exact absurd (hended.symm.trans hcall) (by rintro ⟨⟩)
  · obtain hcall | hcall := hcall
    · exact .inl ⟨hcall, hlooking⟩
    · exact .inr (.inr (.inl hcall))

/-- What the resolver has found becomes the peers of the session. -/
theorem Sound.resolve_handler (h : d.Sound upstreams conf) (hlooking : d.looking = true)
    {answer : Option (List SockAddr)} (haddrs : answer ≠ some [])
    (hanswer : d.resolve_handler answer = ok d') : d'.Sound upstreams conf := by
  have hpeerless := h.peerless hlooking
  have hlookups : d.done + 1 = d.started := by simpa [hlooking] using h.lookups
  have hidle := hpeerless.idle
  unfold Dynamic.resolve_handler at hanswer
  cases hresolved : d.resolved with
  | none => simp [hresolved] at hanswer
  | some ur =>
    have hctx : ur.ctx = true := by simpa [looking, hresolved] using hlooking
    have hunnamed := h.unnamed ur hresolved
    simp only [hresolved] at hanswer
    cases answer with
    | none =>
      cases hanswer
      refine ⟨by rintro r ⟨⟩; exact hunnamed, ?_, h.once, by rintro ⟨⟩,
        .inl ⟨hpeerless.us, hidle, .inr (.inr (.inl rfl))⟩⟩
      simpa [looking, hctx] using hlookups
    | some addrs =>
      obtain ⟨hcode, hidle'⟩ | ⟨s', hcreate, hidle'⟩ :=
        Proxy.create_round_robin_peer_cases hidle { ur with addrs }
      · simp only [hcode] at hanswer
        cases hanswer
        refine ⟨by rintro r ⟨⟩; exact hunnamed, ?_, h.once, by rintro ⟨⟩,
          .inl ⟨hpeerless.us, hidle', .inr (.inr (.inl rfl))⟩⟩
        simpa [looking, hctx] using hlookups
      · have hpos : 0 < ({ ur with addrs } : Resolved).addresses.length := by
          unfold Resolved.addresses
          split
          · exact Nat.one_pos
          · rw [List.length_map]
            exact List.length_pos_iff.mpr fun hnil => haddrs (congrArg some hnil)
        have haddresses : ({ ur with addrs, ctx := false } : Resolved).addresses =
            ({ ur with addrs } : Resolved).addresses := rfl
        simp only [hcreate, ne_eq, not_true_eq_false, if_false] at hanswer
        cases hanswer
        refine ⟨by rintro r ⟨⟩; exact hunnamed, by simpa [looking] using hlookups, h.once,
          by rintro ⟨⟩, .inr ⟨rfl, ?_⟩⟩
        have htries : (init_round_robin_peer (implicit_round_robin
            ({ ur with addrs } : Resolved).addresses.length)).tries =
              ({ ur with addrs } : Resolved).addresses.length := by
          simp [init_round_robin_peer, Upstream.tries, implicit_round_robin, RrPeers.number]
        have hlists := hidle'.lists
        obtain rfl := hidle'.2.1
        simp only [Dynamic.addresses, Option.map_some, Option.getD_some, haddresses, htries]
        exact owned_create hpos (tries_pos _ hpos) (tries_le _ _) hlists.1 hlists.2.1

/-- Every state of the session is sound. -/
theorem Reachable.sound (hs₀ : s₀.Idle conf) (h : Reachable N upstreams core s₀ d) :
    d.Sound upstreams conf := by
  induction h with
  | handled h => exact sound_proxy_handler_value hs₀ h
  | called _ hcall ih => exact ih.called hcall
  | event _ hwaiting hlooking hevent ih => exact ih.event hwaiting hlooking hevent
  | downstream_handler _ _ hlooking ev htimer ih => exact ih.downstream_handler hlooking htimer
  | disturbed _ hwaiting hlooking read write prologue mem env ih =>
    have hpeerless := ih.peerless hlooking
    exact ⟨ih.unnamed, ih.lookups, ih.once, ih.ended,
      .inl ⟨hpeerless.us, hpeerless.idle, hpeerless.call⟩⟩
  | resolve_handler _ _ hlooking haddrs hanswer ih => exact ih.resolve_handler hlooking haddrs hanswer

theorem idle_of_created (hs₀ : s₀.Created) : s₀.Idle s₀.conf := by
  obtain ⟨conf, stream, notify, preread, noise, prologue, mem, env, rfl⟩ := hs₀
  exact ⟨rfl, rfl, rfl⟩

/-- The places of the first addresses. -/
theorem map_getElem?_range {α : Type} (l : List α) {k : Nat} (hk : k ≤ l.length) :
    (List.range k).map (fun i => l[i]?) = (l.take k).map some := by
  apply List.ext_getElem?
  intro i
  by_cases hi : i < k
  · simp [hi, List.getElem?_eq_getElem (Nat.lt_of_lt_of_le hi hk)]
  · simp [hi]

theorem tried_of_order (hk : d.proxy.attempts.length ≤ d.addresses.length)
    (h : d.proxy.attempts.reverse = (List.range d.proxy.attempts.length).map (Prod.mk .primary)) :
    d.tried = (d.addresses.take d.proxy.attempts.length).map some := by
  unfold tried
  rw [h, List.map_map]
  exact map_getElem?_range _ hk

/-- A session of which the upstream is a value tries the addresses that the value stands for in their
order, none twice, and as many as it may; while there are tries it finds a peer. The only connection
to its peers is its own to the peer that it holds, its name is that of no configured upstream, and the
lookup of the name has come to its end before a peer is tried, and before the session ends. -/
theorem tried_in_order (hs₀ : s₀.Created) (h : Reachable N upstreams core s₀ d) :
    d.tried = (d.addresses.take d.proxy.attempts.length).map some ∧
    d.proxy.attempts.length ≤ Proxy.SrvConf.tries s₀.conf d.addresses.length ∧
    (d.call = .connect → ∀ now, ∃ us' pc', get_round_robin_peer now d.us d.proxy.peer = ok (NGX_OK, us', pc') ∧
      pc'.sockaddr = some (.primary, d.proxy.attempts.length)) ∧
    (∀ i peer, d.us.primary.peer[i]? = some peer →
      peer.conns = if d.proxy.peer.sockaddr = some (.primary, i) then 1 else 0) ∧
    (∀ ur, d.resolved = some ur → find_upstream upstreams ur.url = none) ∧
    d.done ≤ d.started ∧ d.started ≤ 1 ∧
    (d.proxy.attempts ≠ [] ∨ d.call = .ended → d.done = d.started) := by
  have hsound := h.sound (idle_of_created hs₀)
  have hlookups := hsound.lookups
  have hdone : d.done ≤ d.started := hlookups ▸ Nat.le_add_right _ _
  obtain hpeerless | ⟨hlooking, howned⟩ := hsound.peers
  · obtain ⟨hattempts, -, -, -⟩ := hpeerless.idle.lists
    refine ⟨by simp [tried, hattempts], by simp [hattempts], ?_, ?_, hsound.unnamed, hdone, hsound.once, ?_⟩
    · intro hcall
      have hstands := hpeerless.call
      simp [hcall] at hstands
    · intro i peer hpeer
      simp [hpeerless.us, no_peers] at hpeer
    · rintro (hne | hended)
      · exact absurd hattempts hne
      · simpa [hsound.ended hended] using hlookups
  · obtain ⟨hle, hlt⟩ := howned.going.attempts_le
    refine ⟨tried_of_order (hle.trans howned.le) howned.order, hle, ?_, ?_, hsound.unnamed, hdone,
      hsound.once, fun _ => by simpa [hlooking] using hlookups⟩
    · intro hcall now
      obtain ⟨us', tried, hget, -⟩ := howned.own.get now (Nat.lt_of_lt_of_le (hlt hcall) howned.le)
      exact ⟨us', _, hget, rfl⟩
    · intro i peer hpeer
      have hload := howned.held (.primary, i)
      simp only [Upstream.load, Upstream.peer, Upstream.peers, Option.bind_some, hpeer,
        Option.map_some] at hload
      split at hload
      · simpa using congrArg (Option.map Prod.fst) hload
      · cases hload

/-- A name with two addresses. -/
def two_addresses : Surroundings where
  set_local := true
  value := some [97]
  parse_url := fun host => some (⟨host, 80, false, 0, false⟩, none)
  resolver := .started

/-- The first of two addresses is refused, the second is tried next. -/
theorem tried_in_order_of_two :
    ∃ d : Dynamic Pattern, d.tried = [some (.inet 1 80), some (.inet 2 80)] ∧
      d.proxy.attempts.length ≤ 2 := by
  have hhandled : Reachable pattern_xx [] two_addresses (.create ⟨none, false, none, true, 0⟩ true
      false false ⟨.initiator, 0⟩ proxy_prologue ⟨fun _ => 0, []⟩ (.quiet [] false)) _ := .handled rfl
  have haddrs : some [SockAddr.inet 1 0, .inet 2 0] ≠ some [] := by simp
  have hfound := hhandled.resolve_handler rfl rfl haddrs rfl
  have hfirst := hfound.called (.connect 0 .declined rfl)
  have hnext := hfirst.called (.next_upstream 0 false rfl)
  have hsecond := hnext.called (.connect 0 .declined rfl)
  have hall := tried_in_order ⟨_, _, _, _, _, _, _, _, rfl⟩ hsecond
  exact ⟨_, hall.1.trans rfl, hall.2.1⟩

end Dynamic

end ngx_nsoc_proxy
