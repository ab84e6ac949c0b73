import NoiseSocket.Proxy.Account

open Exec Exec.Result

namespace ngx_nsoc_proxy

open ngx_nsoc ngx_nsoc_upstream

variable {S : Type}

/-- A call of the module, by what it does to the peers and by what follows. -/
structure Moves (us us' : Upstream) (call call' : Call) (a a' : Account) : Prop where
  step : Account.Step us us' a a'
  leads : Proxy.Leads call call'
  holds : call'.Holds a'.sockaddr
  tries : call' = .connect → a'.tries ≠ 0

namespace Proxy

variable {us us' : Upstream} {s s' : Proxy S} {call : Call}

theorem proxy_connect_moves {now : Int} {answer : ConnectAnswer} (hus : us.Ready)
    (hs : s.account.Sound us .connect) (h : s.proxy_connect now answer us = ok (call, us', s')) :
    Moves us us' .connect call s.account s'.account := by
  have hnone : s.account.sockaddr = none := hs.holds
  simp only [proxy_connect] at h
  split at h
  · cases h
    exact ⟨.keep (.refl us), .inl rfl, trivial, nofun⟩
  · obtain ⟨r, hr, h⟩ := bind_eq_ok_iff.mp h
    have hfits : us.Fits s.peer.data.tried := (hs.fits.resolve_left nofun).resolve_left nofun
    obtain ⟨p, hget, hpick⟩ := @get_round_robin_peer_spec now _ s.peer hus hs.group hfits
    have hget' : get_round_robin_peer now us ({ s with connected := false }.ngx_alloc).2.peer = ok p := hget
    simp only [ngx_event_connect_peer, hget', bind_ok] at hr
    cases hpick with
    | busy hkeeps hgroup =>
      simp only [NGX_BUSY, NGX_OK] at hr
      cases hr
      simp only [NGX_BUSY, or_true, if_true, Result.ok.injEq, Prod.mk.injEq] at h
      obtain ⟨rfl, rfl, rfl⟩ := h
      exact ⟨.busy hnone hkeeps hgroup, .inl rfl, trivial, nofun⟩
    | selected hconnects hlength hmarks hswitch =>
      have hstep := Account.Step.select (a := s.account) hnone hconnects hlength hmarks hswitch
      cases answer with
      | error =>
        cases hr
        cases h
        exact ⟨hstep, .inl rfl, trivial, nofun⟩
      | declined =>
        cases hr
        cases h
        exact ⟨hstep, .inr (.inl rfl), rfl, nofun⟩
      | again id env =>
        cases hr
        cases h
        exact ⟨hstep, .inr (.inr (.inr rfl)), rfl, nofun⟩
      | connected id env =>
        cases hr
        cases h
        exact ⟨hstep, .inr (.inr (.inl rfl)), rfl, nofun⟩

@[simp]
theorem account_set_nodelay (nodelay : Bool) (s : Proxy S) :
    (s.set_nodelay nodelay).2.account = s.account := by
  unfold set_nodelay
  split <;> rfl

@[simp]
theorem account_alloc_upstream_buf (s : Proxy S) : s.alloc_upstream_buf.2.account = s.account := by
  unfold alloc_upstream_buf
  split <;> rfl

@[simp]
theorem account_link_preread (s : Proxy S) : s.link_preread.2.account = s.account := by
  unfold link_preread
  split <;> rfl

@[simp]
theorem account_set_connected (pc : Connection) (s : Proxy S) :
    (s.set_connected pc).account = s.account := rfl

theorem init_upstream_moves {nodelay : Bool} (hs : s.account.Sound us .init_upstream)
    (h : s.init_upstream nodelay us = ok (call, us', s')) :
    Moves us us' .init_upstream call s.account s'.account := by
  unfold init_upstream at h
  cases hpc : s.peer.connection with
  | none => simp [hpc] at h
  | some pc =>
    simp only [hpc] at h
    split at h
    · cases h
      simp only [account_set_nodelay]
      exact ⟨.keep (.refl us), .inl rfl, hs.holds, nofun⟩
    split at h
    · cases h
      simp only [account_set_nodelay]
      exact ⟨.keep (.refl us), .inr (.inl rfl), hs.holds, nofun⟩
    obtain ⟨us₁, hnotify, h⟩ := bind_eq_ok_iff.mp h
    have hkeeps : us.Keeps us₁ := by
      unfold notify_peer at hnotify
      split at hnotify
      · exact notify_round_robin_peer_keeps hnotify
      · cases hnotify
        exact .refl us
    simp only at h
    split at h
    · cases h
      simp only [account_alloc_upstream_buf, account_set_nodelay]
      exact ⟨.keep hkeeps, .inr (.inr (.inl rfl)), trivial, nofun⟩
    split at h
    · cases h
      simp only [account_link_preread, account_alloc_upstream_buf, account_set_nodelay]
      exact ⟨.keep hkeeps, .inr (.inr (.inl rfl)), trivial, nofun⟩
    · cases h
      simp only [account_set_connected, account_link_preread, account_alloc_upstream_buf,
        account_set_nodelay]
      exact ⟨.keep hkeeps, .inr (.inr (.inr rfl)), hs.holds, nofun⟩

@[simp]
theorem account_create_connection (pc : Connection) (noise : NoiseCtx × Nat) (s : Proxy S) :
    (s.create_connection pc noise).2.account = s.account := by
  simp only [create_connection]
  split
  · rfl
  split <;> rfl

theorem account_handshake {N : NoiseC S} {fuel : Nat} {pc : Connection} {s : Proxy S}
    {r : Int × Proxy S} (h : s.handshake N fuel pc = ok r) : r.2.account = s.account := by
  unfold handshake at h
  split at h
  · cases h
    rfl
  split at h
  · obtain ⟨w, -, h⟩ := bind_eq_ok_iff.mp h
    cases h
    rfl
  · cases h
    rfl

theorem noise_init_connection_moves {N : NoiseC S} {fuel : Nat}
    (hs : s.account.Sound us .noise_init_connection)
    (h : s.noise_init_connection N fuel = ok (call, s')) :
    Moves us us .noise_init_connection call s.account s'.account := by
  unfold noise_init_connection at h
  cases hpc : s.peer.connection with
  | none => simp [hpc] at h
  | some pc =>
    cases hnoise : s.conf.noise with
    | none => simp [hpc, hnoise] at h
    | some noise =>
      simp only [hpc, hnoise] at h
      split at h
      · cases h
        simp only [account_create_connection]
        exact ⟨.keep (.refl us), .inl rfl, trivial, nofun⟩
      obtain ⟨r, hr, h⟩ := bind_eq_ok_iff.mp h
      have haccount : r.2.account = s.account :=
        (account_handshake hr).trans (account_create_connection pc noise s)
      split at h
      · cases h
        rw [account_setHandler, haccount]
        exact ⟨.keep (.refl us), .inr (.inl rfl), hs.holds, nofun⟩
      · cases h
        rw [haccount]
        exact ⟨.keep (.refl us), .inr (.inr rfl), hs.holds, nofun⟩

theorem noise_handshake_moves (hs : s.account.Sound us .noise_handshake)
    (h : s.noise_handshake = ok (call, s')) :
    Moves us us .noise_handshake call s.account s'.account := by
  unfold noise_handshake at h
  cases hnc : s.client_noise_connection with
  | none => simp [hnc] at h
  | some nc =>
    simp only [hnc] at h
    split at h
    · cases h
      exact ⟨.keep (.refl us), .inl rfl, hs.holds, nofun⟩
    · cases h
      exact ⟨.keep (.refl us), .inr rfl, hs.holds, nofun⟩

theorem account_relay (answer : ProcessAnswer) (from_upstream : Bool) (s : Proxy S) :
    (s.relay answer from_upstream).account = s.account := by
  unfold relay
  simp only
  split
  · rfl
  split <;> rfl

theorem process_moves {from_upstream do_write : Bool} (answer : ProcessAnswer)
    (hs : s.account.Sound us (.process from_upstream do_write)) :
    Moves us us (.process from_upstream do_write) (s.process answer from_upstream).1 s.account
      (s.process answer from_upstream).2.account := by
  have haccount : (s.process answer from_upstream).2.account = s.account := by
    rw [← account_relay answer from_upstream s]
    unfold process
    cases answer.exit <;> rfl
  rw [haccount]
  unfold process
  cases answer.exit with
  | returned => exact ⟨.keep (.refl us), .inl rfl, hs.holds, nofun⟩
  | finalize => exact ⟨.keep (.refl us), .inr (.inr rfl), trivial, nofun⟩
  | next_upstream =>
    cases hstream : (s.relay answer from_upstream).stream with
    | false =>
      simp only [hstream]
      exact ⟨.keep (.refl us), .inr (.inl rfl), hs.holds, nofun⟩
    | true =>
      simp only [hstream]
      exact ⟨.keep (.refl us), .inr (.inr rfl), trivial, nofun⟩

/-- The release of the peer of a session, if it holds one. -/
theorem free_peer_spec (now : Int) (failed : Bool) (hs : s.account.Sound us call) :
    ∃ us' s', s.free_peer now failed us = ok (us', s') ∧ s'.account.sockaddr = none ∧
      Account.Step us us' s.account s'.account := by
  cases hsome : s.peer.sockaddr with
  | none =>
    exact ⟨us, s, by simp [free_peer, hsome], hsome, .keep (.refl us)⟩
  | some at_ =>
    obtain ⟨hcurrent, -, hpeer⟩ := hs.current at_ hsome
    obtain ⟨⟨single, n⟩, hshape⟩ := Option.isSome_iff_exists.mp hs.group
    have hspec : ∃ us', free_round_robin_peer now us s.peer failed =
          ok (us', { s.peer with tries := triesLeft single s.peer.tries }) ∧ us.Frees us' at_ :=
      free_round_robin_peer_spec now failed hcurrent hpeer hshape
    obtain ⟨us', hfree, hfrees⟩ := hspec
    have hcurrent' : s.peer.data.current = some at_ := hcurrent
    refine ⟨us', { s with
      peer := { s.peer with sockaddr := none, tries := triesLeft single s.peer.tries }
      freed := at_ :: s.freed }, ?_, rfl, .free hsome hfrees hshape⟩
    simp [free_peer, hsome, hfree, hcurrent']

theorem next_upstream_moves {now : Int} {expired : Bool} (hs : s.account.Sound us .next_upstream)
    (h : s.next_upstream now expired us = ok (call, us', s')) :
    Moves us us' .next_upstream call s.account s'.account := by
  unfold next_upstream at h
  split at h
  · cases h
    exact ⟨.keep (.refl us), .inl rfl, trivial, nofun⟩
  obtain ⟨us₁, s₁, hfree, hnone, hstep⟩ := free_peer_spec now true hs
  simp only [hfree, bind_ok] at h
  split at h
  · cases h
    exact ⟨hstep, .inl rfl, trivial, nofun⟩
  · rename_i htries
    cases h
    exact ⟨hstep, .inr rfl, hnone, fun _ => (not_or.mp htries).1⟩

theorem finalize_moves {now : Int} (hs : s.account.Sound us .finalize)
    (h : s.finalize now us = ok (call, us', s')) :
    Moves us us' .finalize call s.account s'.account := by
  obtain ⟨us₁, s₁, hfree, hnone, hstep⟩ := free_peer_spec now false hs
  simp only [finalize, hfree, bind_ok] at h
  cases h
  exact ⟨hstep, rfl, hnone, nofun⟩

end Proxy

theorem CallStep.moves {N : NoiseC S} {us us' : Upstream} {call call' : Call} {s s' : Proxy S}
    (h : CallStep N us (call, s) us' (call', s')) (hus : us.Ready) (hs : s.account.Sound us call) :
    Moves us us' call call' s.account s'.account := by
  generalize hx : (call, s) = x at h
  generalize hy : (call', s') = y at h
  cases h with
  | connect now answer h =>
    cases hx
    cases hy
    exact Proxy.proxy_connect_moves hus hs h
  | init_upstream nodelay h =>
    cases hx
    cases hy
    exact Proxy.init_upstream_moves hs h
  | noise_init_connection fuel h =>
    cases hx
    cases hy
    exact Proxy.noise_init_connection_moves hs h
  | noise_handshake h =>
    cases hx
    cases hy
    exact Proxy.noise_handshake_moves hs h
  | process answer from_upstream do_write =>
    cases hx
    have hmoves := Proxy.process_moves answer hs
    rwa [← hy] at hmoves
  | next_upstream now expired h =>
    cases hx
    cases hy
    exact Proxy.next_upstream_moves hs h
  | finalize now h =>
    cases hx
    cases hy
    exact Proxy.finalize_moves hs h

/-- The calls that an event may lead to: none of them is made without a peer. -/
def Call.Handled (call : Call) : Prop := call ≠ .connect ∧ call ≠ .ended

namespace Proxy

variable {s s' : Proxy S} {call : Call}

theorem process_connection_handled (ev : ProxyEvent) (from_upstream : Bool) (s : Proxy S) :
    Call.Handled (s.process_connection ev from_upstream) := by
  have hrun : Call.Handled
      (if from_upstream ∧ ¬ s.connected then .waiting else .process from_upstream ev.write) := by
    split <;> exact ⟨nofun, nofun⟩
  have hrearm : Call.Handled (if ev.handled then .waiting else .finalize) := by
    split <;> exact ⟨nofun, nofun⟩
  simp only [process_connection]
  split
  · split
    · split
      · exact hrun
      · exact hrearm
    repeat' split
    all_goals exact ⟨nofun, nofun⟩
  · split
    · exact hrearm
    · exact hrun

theorem call_handler_account {nc : NoiseConnection} (h : s.call_handler nc = ok (call, s')) :
    s'.account = s.account ∧ Call.Handled call := by
  unfold call_handler at h
  split at h
  · cases h
    exact ⟨rfl, nofun, nofun⟩
  · cases h

theorem handshake_handler_account {N : NoiseC S} {fuel : Nat} {timedout : Bool} {pc : Connection}
    (h : s.handshake_handler N fuel timedout pc = ok (call, s')) :
    s'.account = s.account ∧ Call.Handled call := by
  unfold handshake_handler at h
  split at h
  · cases h
    exact ⟨rfl, nofun, nofun⟩
  split at h
  · cases h
    exact ⟨rfl, nofun, nofun⟩
  split at h
  · exact call_handler_account h
  obtain ⟨r, hr, h⟩ := bind_eq_ok_iff.mp h
  have haccount := account_handshake hr
  split at h
  · cases h
    exact ⟨haccount, nofun, nofun⟩
  split at h
  · cases h
  · have hcall := call_handler_account h
    exact ⟨hcall.1.trans haccount, hcall.2⟩

theorem connect_handler_account (timedout tested : Bool) (s : Proxy S) :
    (s.connect_handler timedout tested).2.account = s.account ∧
      Call.Handled (s.connect_handler timedout tested).1 := by
  simp only [connect_handler]
  split
  · exact ⟨rfl, nofun, nofun⟩
  split <;> exact ⟨rfl, nofun, nofun⟩

end Proxy

/-- An event keeps the account, and the session goes on holding its peer. -/
theorem EventStep.account {N : NoiseC S} {s : Proxy S} {x : Call × Proxy S} (h : EventStep N s x) :
    x.2.account = s.account ∧ Call.Handled x.1 := by
  cases h with
  | connect_handler timedout tested hpc => exact s.connect_handler_account timedout tested
  | handshake_handler fuel timedout hpc h => exact Proxy.handshake_handler_account h
  | upstream_handler ev hpc => exact ⟨rfl, s.process_connection_handled ev _⟩
  | downstream_handler ev => exact ⟨rfl, s.process_connection_handled ev _⟩
  | disturbed read write prologue mem env => exact ⟨rfl, nofun, nofun⟩

section

variable {us us' : Upstream} {call call' : Call} {a a' : Account}

/-- What others do to the peers leaves the pointers valid. -/
theorem Account.Sound.congr (h : a.Sound us call) (hshape : us'.shape = us.shape) :
    a.Sound us' call where
  group := by rw [hshape]; exact h.group
  fits := h.fits.imp_right (Or.imp_right fun hfits => hfits.congr hshape rfl)
  current := by
    intro at_ hat
    rw [Upstream.isSome_peer_congr hshape]
    exact h.current at_ hat
  attempts := h.attempts
  holds := h.holds

/-- An event leaves the account of a session that waits with its peer. -/
theorem EventStep.sound {N : NoiseC S} {s : Proxy S} {x : Call × Proxy S} (h : EventStep N s x)
    (hs : s.account.Sound us .waiting) : x.2.account.Sound us x.1 := by
  obtain ⟨haccount, hconnect, hover⟩ := h.account
  rw [haccount]
  have hsome : s.account.sockaddr.isSome = true := hs.holds
  refine { hs with fits := ?_, holds := ?_ }
  · have hfits := hs.fits.resolve_left nofun
    exact .inr (.inr (hfits.resolve_left nofun))
  · cases hcall : x.1 with
    | connect => exact absurd hcall hconnect
    | ended => exact absurd hcall hover
    | finalize => trivial
    | _ => exact hsome

/-- A session that has just been accepted does not hold a peer. -/
theorem Proxy.sound_proxy_handler (us : Upstream) (conf : SrvConf) (stream notify preread : Bool)
    (noise : S) (prologue : PrologueData) (mem : Memory) (env : Env) :
    let x := (Proxy.create conf stream notify preread noise prologue mem env).proxy_handler us
    x.2.account.Sound us x.1 ∧ x.2.peer.sockaddr = none := by
  simp only [Proxy.proxy_handler]
  split
  · exact ⟨⟨rfl, .inl rfl, nofun, rfl, trivial⟩, rfl⟩
  · exact ⟨⟨rfl, .inr (.inr (fits_init_round_robin_peer us)), nofun, rfl, rfl⟩, rfl⟩

theorem Account.Step.shape (h : Account.Step us us' a a') : us'.shape = us.shape := by
  cases h with
  | keep hkeeps => exact hkeeps.shape
  | busy _ hkeeps => exact hkeeps.shape
  | select _ hconnects _ _ _ => exact hconnects.shape
  | free _ hfrees _ => exact hfrees.shape

/-- A session that has no peer before and behind a call comes to its end. -/
theorem ended_of_none (hleads : Proxy.Leads call call') (hold : call.Holds none)
    (hnew : call'.Holds none) : call' = .finalize ∨ call' = .ended := by
  cases call with
  | connect =>
    obtain rfl | rfl | rfl | rfl := hleads
    · exact .inl rfl
    all_goals cases hnew
  | finalize => exact .inr hleads
  | ended => exact hleads.elim
  | _ => cases hold

/-- Only at a call of `ngx_nsoc_proxy_connect` a session gets a peer. -/
theorem connect_of_some {at_ : Group × Nat} (hleads : Proxy.Leads call call')
    (hold : call.Holds none) (hnew : call'.Holds (some at_)) : call = .connect := by
  cases call with
  | connect => rfl
  | finalize =>
    cases hleads
    cases hnew
  | ended => exact hleads.elim
  | _ => cases hold

/-- A step keeps the pointers valid. -/
theorem Moves.sound (h : Moves us us' call call' a a') (hs : a.Sound us call) :
    a'.Sound us' call' := by
  obtain ⟨hstep, hleads, hholds, -⟩ := h
  have hfits : ∀ {data : RrPeerData}, data.tried.length = a.data.tried.length →
      call' = .finalize ∨ call' = .ended ∨ us'.Fits data.tried := by
    intro data hlength
    obtain hcall | hcall | hfits := hs.fits
    · rw [hcall] at hleads
      exact .inr (.inl hleads)
    · rw [hcall] at hleads
      exact hleads.elim
    · exact .inr (.inr (hfits.congr hstep.shape hlength))
  cases hstep with
  | keep hkeeps => exact { hs.congr hkeeps.shape with fits := hfits rfl, holds := hholds }
  | busy hnone hkeeps hgroup =>
    have hcall : call' = .finalize ∨ call' = .ended :=
      ended_of_none hleads (hnone ▸ hs.holds) (hnone ▸ hholds)
    refine ⟨by rw [hkeeps.shape]; exact hgroup, hcall.imp_right .inl, ?_, hs.attempts, hholds⟩
    intro at_ hat
    rw [hnone] at hat
    cases hat
  | @select at_ tried hnone hconnects hlength hmarks hswitch =>
    obtain ⟨conns, max_conns, hload, -, hload'⟩ := hconnects.load
    have hpeer : (us.peer at_).isSome = true := by
      obtain ⟨peer, hpeer, -⟩ := Option.map_eq_some_iff.mp hload
      rw [hpeer]
      rfl
    refine ⟨?_, hfits hlength, ?_, ?_, hholds⟩
    · rw [hconnects.shape]
      exact Upstream.isSome_shape_of_peer hpeer
    · intro at' hat
      cases hat
      exact ⟨rfl, rfl, by rw [Upstream.isSome_peer_congr hconnects.shape]; exact hpeer⟩
    · have hattempts := hs.attempts
      rw [hnone] at hattempts
      simp [hattempts]
  | free hsome hfrees hshape =>
    refine ⟨by rw [hfrees.shape]; exact hs.group, hfits rfl, nofun, ?_, hholds⟩
    have hattempts := hs.attempts
    rw [hsome] at hattempts
    simpa using hattempts

end

end ngx_nsoc_proxy
