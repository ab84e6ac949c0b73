import NoiseSocket.Handler.Outcome.Client
import NoiseSocket.Proxy

open Exec Exec.Result

namespace ngx_nsoc_proxy

open ngx_nsoc ngx_nsoc_upstream

variable {S : Type}

/-- Both events of a connection have the handler `h`. -/
def Hooks (pc : Connection) (h : EventHandler) : Prop := pc.read.handler = h ∧ pc.write.handler = h

theorem Hooks.eq_of_handles {s : Proxy S} {pc pc' : Connection} {h h' : EventHandler}
    (hpc : s.peer.connection = some pc) (hhooks : Hooks pc h) (hhandles : Handles s pc' h') :
    pc' = pc ∧ h' = h := by
  obtain ⟨hpc', hhandler⟩ := hhandles
  rw [hpc] at hpc'
  cases hpc'
  obtain hread | hwrite := hhandler
  · exact ⟨rfl, hread.symm.trans hhooks.1⟩
  · exact ⟨rfl, hwrite.symm.trans hhooks.2⟩

namespace Proxy

/-- A noise connection that an earlier attempt has left is not handshaked. -/
def Pending (s : Proxy S) : Prop :=
  ∀ nc, s.client_noise_connection = some nc → nc.handshaked = false

/-- The connection to the upstream has its noise connection. -/
structure Attached (s : Proxy S) (pc : Connection) (nc : NoiseConnection) : Prop where
  connection : s.peer.connection = some pc
  client_noise_connection : s.client_noise_connection = some nc
  client : (s.endpoint pc nc).Client
  nodelay : s.conf.tcp_nodelay = true → s.tcp_nodelay = true

/-- The connection to the upstream is being established. -/
structure Connecting (s : Proxy S) : Prop where
  pending : s.Pending
  hooks : ∃ pc, s.peer.connection = some pc ∧ Hooks pc .proxy_connect_handler

/-- The noise handshake with the upstream is under way. -/
def Handshaking (s : Proxy S) : Prop := ∃ pc nc, s.Attached pc nc ∧ Hooks pc .handshake_handler

/-- The noise handshake with the upstream is over, and the connection uses its keys. -/
structure Relaying (s : Proxy S) (pc : Connection) (nc : NoiseConnection) : Prop where
  connection : s.peer.connection = some pc
  client_noise_connection : s.client_noise_connection = some nc
  bound : nc.connection = pc.id
  handshaked : nc.handshaked = true
  transport : pc.transport = .noise
  hooks : Hooks pc .proxy_upstream_handler

/-- What a session that waits for an event waits for. -/
def Waits (s : Proxy S) : Prop :=
  (s.connected = true ∧ ∃ pc nc, s.Relaying pc nc) ∨
    (s.connected = false ∧ (s.Connecting ∨ s.Handshaking))

/-- What holds of a session at each call. -/
def Stage (s : Proxy S) : Call → Prop
  | .waiting => s.Waits
  | .process _ _ => s.Waits
  | .connect => s.connected = false ∧ s.Pending
  | .next_upstream => s.connected = false ∧ s.Pending
  | .init_upstream => s.connected = false ∧ ∃ pc, s.peer.connection = some pc ∧
      (s.Pending ∨ ∃ nc, s.Attached pc nc ∧ nc.handshaked = true)
  | .noise_init_connection => s.connected = false ∧ s.client_noise_connection = none ∧
      (s.conf.tcp_nodelay = true → s.tcp_nodelay = true)
  | .noise_handshake => s.connected = false ∧ ∃ pc nc, s.Attached pc nc
  | .finalize => s.connected = true → ∃ pc nc, s.Relaying pc nc
  | .ended => True

/-- A session over a stream with noise towards its upstream. -/
structure Guarded (call : Call) (s : Proxy S) : Prop where
  stream : s.stream = true
  noise : s.conf.noise.isSome = true
  relayed : ∀ t ∈ s.relayed, t = .noise
  stage : s.Stage call

/-- The settings of a session and what it has relayed. -/
structure Same (s s' : Proxy S) : Prop where
  conf : s'.conf = s.conf
  stream : s'.stream = s.stream
  relayed : s'.relayed = s.relayed

theorem Same.trans {s t u : Proxy S} (h : Same s t) (h' : Same t u) : Same s u :=
  ⟨h'.conf.trans h.conf, h'.stream.trans h.stream, h'.relayed.trans h.relayed⟩

theorem Same.guarded {s s' : Proxy S} {call call' : Call} (h : Same s s') (hs : Guarded call s)
    (hstage : s'.Stage call') : Guarded call' s' :=
  ⟨h.stream.trans hs.stream, by rw [h.conf]; exact hs.noise, by rw [h.relayed]; exact hs.relayed, hstage⟩

section

variable {us us' : Upstream} {s s' : Proxy S} {call : Call}

theorem guarded_connect {now : Int} {answer : ConnectAnswer} (hs : Guarded .connect s)
    (h : s.proxy_connect now answer us = ok (call, us', s')) : Guarded call s' := by
  obtain ⟨-, hpending⟩ := hs.stage
  simp only [proxy_connect] at h
  split at h
  · cases h
    exact Same.guarded (s := s) ⟨rfl, rfl, rfl⟩ hs nofun
  obtain ⟨r, hr, h⟩ := bind_eq_ok_iff.mp h
  obtain ⟨p, hget, hr⟩ := bind_eq_ok_iff.mp hr
  split at hr
  · rename_i hcode
    have hbusy := (get_round_robin_peer_code hget).resolve_left hcode
    cases hr
    simp only [hbusy, or_true, if_true] at h
    cases h
    exact Same.guarded (s := s) ⟨rfl, rfl, rfl⟩ hs nofun
  cases answer with
  | error =>
    cases hr
    cases h
    exact Same.guarded (s := s) ⟨rfl, rfl, rfl⟩ hs nofun
  | declined =>
    cases hr
    cases h
    exact Same.guarded (s := s) ⟨rfl, rfl, rfl⟩ hs ⟨rfl, hpending⟩
  | again id env =>
    cases hr
    cases h
    exact Same.guarded (s := s) ⟨rfl, rfl, rfl⟩ hs (.inr ⟨rfl, .inl ⟨hpending, _, rfl, rfl, rfl⟩⟩)
  | connected id env =>
    cases hr
    cases h
    exact Same.guarded (s := s) ⟨rfl, rfl, rfl⟩ hs ⟨rfl, _, rfl, .inl hpending⟩

/-- Setting `TCP_NODELAY` changes nothing else. -/
theorem set_nodelay_spec (nodelay : Bool) (s : Proxy S) (hstream : s.stream = true) :
    ∃ tcp_nodelay, (s.set_nodelay nodelay).2 = { s with tcp_nodelay } ∧
      ((s.set_nodelay nodelay).1 = true → s.conf.tcp_nodelay = true → tcp_nodelay = true) ∧
      ((s.conf.tcp_nodelay = true → s.tcp_nodelay = true) → (s.set_nodelay nodelay).1 = true) := by
  unfold set_nodelay
  split
  · rename_i hset
    refine ⟨nodelay, rfl, fun h _ => h, ?_⟩
    intro h
    exact absurd (h hset.2.1) hset.2.2
  · rename_i hset
    refine ⟨s.tcp_nodelay, rfl, ?_, fun _ => rfl⟩
    intro _ hconf
    by_contra hunset
    exact hset ⟨hstream, hconf, hunset⟩

theorem alloc_upstream_buf_spec (s : Proxy S) :
    ∃ upstream_buf env, s.alloc_upstream_buf.2 = { s with upstream_buf, env } := by
  unfold alloc_upstream_buf
  split
  · exact ⟨s.upstream_buf, s.env, rfl⟩
  · exact ⟨s.ngx_alloc.1, _, rfl⟩

theorem link_preread_spec (s : Proxy S) :
    ∃ upstream_out env, s.link_preread.2 = { s with upstream_out, env } := by
  unfold link_preread
  split
  · exact ⟨_, _, rfl⟩
  · exact ⟨s.upstream_out, s.env, rfl⟩

theorem guarded_init_connected {pc : Connection} {nc : NoiseConnection}
    (hs : Guarded .init_upstream s) (hattached : s.Attached pc nc) (hdone : nc.handshaked = true)
    (h : s.init_connected pc us = ok (call, us', s')) : Guarded call s' := by
  have hconnected : s.connected = false := hs.stage.1
  obtain ⟨us₁, -, h⟩ := bind_eq_ok_iff.mp h
  obtain ⟨upstream_buf, env, hbuf⟩ := s.alloc_upstream_buf_spec
  simp only [hbuf] at h
  split at h
  · cases h
    exact Same.guarded (s := s) ⟨rfl, rfl, rfl⟩ hs (fun hc => by rw [hconnected] at hc; cases hc)
  obtain ⟨upstream_out, env', hlink⟩ := ({ s with upstream_buf, env } : Proxy S).link_preread_spec
  simp only [hlink] at h
  split at h
  · cases h
    exact Same.guarded (s := s) ⟨rfl, rfl, rfl⟩ hs (fun hc => by rw [hconnected] at hc; cases hc)
  · cases h
    refine Same.guarded (s := s) ⟨rfl, rfl, rfl⟩ hs (.inl ⟨rfl, _, nc, rfl, ?_, ?_, hdone, ?_, rfl, rfl⟩)
    · exact hattached.client_noise_connection
    · have hbound : nc.connection = pc.id := hattached.client.bound
      split <;> exact hbound
    · have htransport : pc.transport = .noise := hattached.client.transport hdone
      split <;> exact htransport

theorem guarded_init_upstream {nodelay : Bool} (hs : Guarded .init_upstream s)
    (hclean : ∀ nc, s.client_noise_connection = some nc → nc.handshaked = true)
    (h : s.init_upstream nodelay us = ok (call, us', s')) : Guarded call s' := by
  obtain ⟨hconnected, pc, hpc, hstage⟩ := hs.stage
  obtain ⟨tcp_nodelay, hset, hon, hskip⟩ := s.set_nodelay_spec nodelay hs.stream
  simp only [init_upstream, hpc, hset] at h
  split at h
  · rename_i hfail
    cases h
    refine Same.guarded (s := s) ⟨rfl, rfl, rfl⟩ hs ⟨hconnected, ?_⟩
    obtain hpending | ⟨nc, hattached, -⟩ := hstage
    · exact hpending
    · exact absurd (hskip hattached.nodelay) hfail
  rename_i hgood
  simp only [Decidable.not_not] at hgood
  split at h
  · rename_i hnone
    cases h
    refine Same.guarded (s := s) ⟨rfl, rfl, rfl⟩ hs ⟨hconnected, ?_, hon hgood⟩
    exact Option.isNone_iff_eq_none.mp hnone.2.2
  · rename_i hsome
    have hnc : s.client_noise_connection.isSome = true := by
      by_contra hnone
      exact hsome ⟨hs.stream, hs.noise, by simpa using hnone⟩
    obtain ⟨nc, hnc⟩ := Option.isSome_iff_exists.mp hnc
    have hdone := hclean nc hnc
    obtain hpending | ⟨nc', hattached, -⟩ := hstage
    · rw [hpending nc hnc] at hdone
      cases hdone
    · obtain rfl : nc' = nc := by
        have heq := hattached.client_noise_connection
        rw [hnc] at heq
        exact (Option.some.inj heq).symm
      have hattached' : ({ s with tcp_nodelay } : Proxy S).Attached pc nc' :=
        ⟨hattached.connection, hattached.client_noise_connection, hattached.client, hon hgood⟩
      refine guarded_init_connected ?_ hattached' hdone h
      exact Same.guarded (s := s) ⟨rfl, rfl, rfl⟩ hs ⟨hconnected, pc, hpc, .inr ⟨nc', hattached', hdone⟩⟩

/-- The handshake leaves the noise connection attached. -/
theorem attached_handshake {N : NoiseC S} {fuel : Nat} {pc : Connection} {nc : NoiseConnection}
    {r : Int × Proxy S} (hs : s.Attached pc nc) (h : s.handshake N fuel pc = ok r) :
    ∃ w, (s.endpoint pc nc).do_handshake_process N fuel = ok (r.1, w) ∧ r.2 = s.put w ∧
      r.2.Attached w.c w.nc := by
  have hbound : nc.connection = pc.id := hs.client.bound
  simp only [handshake, hs.client_noise_connection, hbound, if_true] at h
  obtain ⟨w, hw, h⟩ := bind_eq_ok_iff.mp h
  cases h
  exact ⟨w.2, hw, rfl, rfl, rfl, Endpoint.do_handshake_process_client hs.client hw, hs.nodelay⟩

/-- The noise connection is created, or an allocation has failed. -/
theorem create_connection_spec (pc : Connection) (noise : NoiseCtx × Nat) (s : Proxy S) :
    ∃ env, s.create_connection pc noise = (NGX_ERROR, { s with env }) ∨
      s.create_connection pc noise = (NGX_OK, { s with
        env
        client_noise_connection := some
          (ngx_nsoc.create_connection pc.id noise.1 noise.2 .client true) }) := by
  simp only [create_connection]
  split
  · exact ⟨_, .inl rfl⟩
  split
  · exact ⟨_, .inl rfl⟩
  · exact ⟨_, .inr rfl⟩

theorem attached_setHandler {pc : Connection} {nc : NoiseConnection} (hs : s.Attached pc nc)
    (handler : ConnectionHandler) :
    (s.setHandler handler).Attached pc { nc with handler := some handler } := by
  refine ⟨hs.connection, ?_, ⟨hs.client.role, hs.client.bound, hs.client.transport⟩, hs.nodelay⟩
  simp [setHandler, hs.client_noise_connection]

theorem attached_setWriteTimer {pc : Connection} {nc : NoiseConnection} (hs : s.Attached pc nc)
    (armed : Bool) :
    (s.setWriteTimer armed).Attached { pc with write := { pc.write with timer_set := armed } } nc := by
  refine ⟨?_, hs.client_noise_connection, ⟨hs.client.role, hs.client.bound, hs.client.transport⟩,
    hs.nodelay⟩
  simp [setWriteTimer, setConnection, hs.connection]

theorem guarded_noise_init_connection {N : NoiseC S} {fuel : Nat}
    (hs : Guarded .noise_init_connection s)
    (h : s.noise_init_connection N fuel = ok (call, s')) : Guarded call s' := by
  obtain ⟨hconnected, hnone, hnodelay⟩ := hs.stage
  unfold noise_init_connection at h
  cases hpc : s.peer.connection with
  | none => simp [hpc] at h
  | some pc =>
    obtain ⟨noise, hnoise⟩ := Option.isSome_iff_exists.mp hs.noise
    obtain ⟨env, hcreated | hcreated⟩ := s.create_connection_spec pc noise
    · simp only [hpc, hnoise, hcreated] at h
      cases h
      exact Same.guarded (s := s) ⟨rfl, rfl, rfl⟩ hs (fun hc => by rw [hconnected] at hc; cases hc)
    simp only [hpc, hnoise, hcreated, ne_eq, not_true_eq_false, if_false] at h
    obtain ⟨r, hr, h⟩ := bind_eq_ok_iff.mp h
    have hcreated : ({ s with
        env
        client_noise_connection := some
          (ngx_nsoc.create_connection pc.id noise.1 noise.2 .client true) } : Proxy S).Attached pc
        (ngx_nsoc.create_connection pc.id noise.1 noise.2 .client true) :=
      ⟨hpc, rfl, ⟨rfl, rfl, fun h => by cases h⟩, hnodelay⟩
    obtain ⟨w, hw, hput, hattached⟩ := attached_handshake hcreated hr
    have hhooked := Endpoint.do_handshake_process_waits_hooked hcreated.client ⟨rfl, rfl, rfl⟩ hw
    have hsame : Same s r.2 := by
      rw [hput]
      exact ⟨rfl, rfl, rfl⟩
    have hwaits : r.2.connected = false := by
      rw [hput]
      exact hconnected
    split at h
    · rename_i hagain
      cases h
      have hhooks := hhooked.resolve_right (not_not.mpr hagain)
      exact Same.guarded (s := s) ⟨hsame.conf, hsame.stream, hsame.relayed⟩ hs
        (.inr ⟨hwaits, .inr ⟨_, _, attached_setHandler hattached _, hhooks.read, hhooks.write⟩⟩)
    · cases h
      exact hsame.guarded hs ⟨hwaits, _, _, hattached⟩

theorem guarded_noise_handshake (hs : Guarded .noise_handshake s)
    (h : s.noise_handshake = ok (call, s')) : Guarded call s' := by
  obtain ⟨hconnected, pc, nc, hattached⟩ := hs.stage
  simp only [noise_handshake, hattached.client_noise_connection] at h
  split at h
  · rename_i hdone
    cases h
    have htimer := attached_setWriteTimer hattached false
    exact Same.guarded (s := s) ⟨rfl, rfl, rfl⟩ hs
      ⟨hconnected, _, htimer.connection, .inr ⟨nc, htimer, hdone⟩⟩
  · rename_i hnot
    cases h
    refine Same.guarded ⟨rfl, rfl, rfl⟩ hs ⟨hconnected, ?_⟩
    intro nc' hnc'
    rw [hattached.client_noise_connection] at hnc'
    cases hnc'
    simpa using hnot

/-- A relay leaves a session that waits as it waits, and passes client data to a connection
that uses its keys. -/
theorem guarded_relay {answer : ProcessAnswer} {from_upstream do_write : Bool}
    (hs : Guarded (.process from_upstream do_write) s) :
    Guarded .waiting (s.relay answer from_upstream) := by
  obtain ⟨hconnected, pc, nc, hrelaying⟩ | ⟨hconnected, hwaits⟩ := hs.stage
  · have hrelay : s.relay answer from_upstream = { s.setConnection (some (touched answer.read answer.write pc)) with
        received := answer.received
        upstream_out := answer.upstream_out
        upstream_busy := answer.upstream_busy
        buffered := answer.buffered
        client_noise_connection := some (answer.noise_connection nc)
        relayed :=
          if answer.written ∧ ¬ from_upstream then pc.transport :: s.relayed else s.relayed } := by
      simp [relay, hrelaying.connection, hconnected, hrelaying.client_noise_connection, setConnection]
    rw [hrelay]
    refine ⟨hs.stream, hs.noise, ?_, .inl ⟨hconnected, touched answer.read answer.write pc,
      answer.noise_connection nc,
      rfl, rfl, hrelaying.bound, hrelaying.handshaked, hrelaying.transport, hrelaying.hooks.1,
      hrelaying.hooks.2⟩⟩
    intro t ht
    simp only at ht
    split at ht
    · obtain rfl | ht := List.mem_cons.mp ht
      · exact hrelaying.transport
      · exact hs.relayed t ht
    · exact hs.relayed t ht
  · have hrelay : s.relay answer from_upstream = { s with
        received := answer.received
        upstream_out := answer.upstream_out
        upstream_busy := answer.upstream_busy } := by
      simp only [relay, hconnected]
      split <;> rfl
    rw [hrelay]
    refine Same.guarded (s := s) ⟨rfl, rfl, rfl⟩ hs (.inr ⟨hconnected, ?_⟩)
    obtain ⟨hpending, hhooks⟩ | ⟨pc, nc, hattached, hhooks⟩ := hwaits
    · exact .inl ⟨hpending, hhooks⟩
    · exact .inr ⟨pc, nc, ⟨hattached.connection, hattached.client_noise_connection,
        ⟨hattached.client.role, hattached.client.bound, hattached.client.transport⟩,
        hattached.nodelay⟩, hhooks⟩

/-- A session that waits may be finalized. -/
theorem Guarded.finalize (hs : Guarded .waiting s) : Guarded .finalize s := by
  refine ⟨hs.stream, hs.noise, hs.relayed, fun hc => ?_⟩
  obtain ⟨-, hrelaying⟩ | ⟨hconnected, -⟩ := hs.stage
  · exact hrelaying
  · rw [hconnected] at hc
    cases hc

theorem guarded_process {answer : ProcessAnswer} {from_upstream do_write : Bool}
    (hs : Guarded (.process from_upstream do_write) s) :
    Guarded (s.process answer from_upstream).1 (s.process answer from_upstream).2 := by
  have hrelay : Guarded .waiting (s.relay answer from_upstream) := guarded_relay hs
  unfold process
  cases answer.exit with
  | returned => exact hrelay
  | finalize => exact hrelay.finalize
  | next_upstream =>
    simp only [hrelay.stream, if_true]
    exact hrelay.finalize

theorem free_peer_same {now : Int} {failed : Bool} {r : Upstream × Proxy S}
    (h : s.free_peer now failed us = ok r) :
    Same s r.2 ∧ r.2.connected = s.connected ∧
      r.2.client_noise_connection = s.client_noise_connection := by
  unfold free_peer at h
  split at h
  · cases h
    exact ⟨⟨rfl, rfl, rfl⟩, rfl, rfl⟩
  · obtain ⟨q, -, h⟩ := bind_eq_ok_iff.mp h
    cases h
    exact ⟨⟨rfl, rfl, rfl⟩, rfl, rfl⟩

theorem guarded_next_upstream {now : Int} {expired : Bool} (hs : Guarded .next_upstream s)
    (h : s.next_upstream now expired us = ok (call, us', s')) : Guarded call s' := by
  obtain ⟨hconnected, hpending⟩ := hs.stage
  unfold next_upstream at h
  split at h
  · cases h
    exact Same.guarded (s := s) ⟨rfl, rfl, rfl⟩ hs (fun hc => by rw [hconnected] at hc; cases hc)
  obtain ⟨r, hfree, h⟩ := bind_eq_ok_iff.mp h
  obtain ⟨hsame, hconnected', hnc⟩ := free_peer_same hfree
  split at h
  · cases h
    exact hsame.guarded hs (fun hc => by rw [hconnected', hconnected] at hc; cases hc)
  · cases h
    refine Same.guarded (s := s) ⟨hsame.conf, hsame.stream, hsame.relayed⟩ hs
      ⟨hconnected'.trans hconnected, ?_⟩
    intro nc hnc'
    exact hpending nc (hnc.symm.trans hnc')

theorem guarded_finalize {now : Int} (hs : Guarded .finalize s)
    (h : s.finalize now us = ok (call, us', s')) : Guarded call s' := by
  obtain ⟨r, hfree, h⟩ := bind_eq_ok_iff.mp h
  obtain ⟨hsame, -⟩ := free_peer_same hfree
  cases h
  exact Same.guarded (s := s) ⟨hsame.conf, hsame.stream, hsame.relayed⟩ hs trivial

theorem guarded_connect_handler {pc : Connection} (timedout tested : Bool)
    (hs : Guarded .waiting s) (hpc : Handles s pc .proxy_connect_handler) :
    Guarded (s.connect_handler timedout tested).1 (s.connect_handler timedout tested).2 := by
  obtain ⟨hconnected, hpending, pc', hpc', -⟩ : s.connected = false ∧ s.Connecting := by
    obtain ⟨-, pc', nc, hrelaying⟩ | ⟨hconnected, hconnecting | ⟨pc', nc, hattached, hhooks⟩⟩ := hs.stage
    · cases (hrelaying.hooks.eq_of_handles hrelaying.connection hpc).2
    · exact ⟨hconnected, hconnecting⟩
    · cases (hhooks.eq_of_handles hattached.connection hpc).2
  simp only [connect_handler]
  split
  · exact Same.guarded (s := s) ⟨rfl, rfl, rfl⟩ hs ⟨hconnected, hpending⟩
  split
  · exact Same.guarded (s := s) ⟨rfl, rfl, rfl⟩ hs ⟨hconnected, hpending⟩
  · have hconnection : (s.setWriteTimer false).peer.connection =
        some { pc' with write := { pc'.write with timer_set := false } } := by
      simp only [setWriteTimer, setConnection, hpc', Option.map_some]
    exact Same.guarded (s := s) ⟨rfl, rfl, rfl⟩ hs ⟨hconnected, _, hconnection, .inl hpending⟩

theorem guarded_call_handler {pc : Connection} {nc nc' : NoiseConnection}
    (hs : Guarded .waiting s) (hconnected : s.connected = false) (hattached : s.Attached pc nc)
    (h : s.call_handler nc' = ok (call, s')) : Guarded call s' := by
  unfold call_handler at h
  split at h
  · cases h
    exact Same.guarded (s := s) ⟨rfl, rfl, rfl⟩ hs ⟨hconnected, pc, nc, hattached⟩
  · cases h

theorem guarded_handshake_handler {N : NoiseC S} {fuel : Nat} {timedout : Bool} {pc : Connection}
    (hs : Guarded .waiting s) (hpc : Handles s pc .handshake_handler)
    (h : s.handshake_handler N fuel timedout pc = ok (call, s')) : Guarded call s' := by
  obtain ⟨hconnected, pc', nc, hattached, hhooks⟩ : s.connected = false ∧ s.Handshaking := by
    obtain ⟨-, pc', nc, hrelaying⟩ | ⟨hconnected, ⟨-, pc', hpc', hhooks⟩ | hhandshaking⟩ := hs.stage
    · cases (hrelaying.hooks.eq_of_handles hrelaying.connection hpc).2
    · cases (hhooks.eq_of_handles hpc' hpc).2
    · exact ⟨hconnected, hhandshaking⟩
  obtain ⟨rfl, -⟩ := hhooks.eq_of_handles hattached.connection hpc
  have hbound : nc.connection = pc.id := hattached.client.bound
  simp only [handshake_handler, hattached.client_noise_connection, hbound, ne_eq, not_true_eq_false,
    if_false] at h
  split at h
  · exact guarded_call_handler hs hconnected hattached h
  obtain ⟨r, hr, h⟩ := bind_eq_ok_iff.mp h
  obtain ⟨w, hw, hput, hattached'⟩ := attached_handshake hattached hr
  have hw₀ : (s.endpoint pc nc).Attached := ⟨⟨hhooks.1, hhooks.2⟩, hattached.client.bound⟩
  have hhooked := (Endpoint.do_handshake_process_attached hw₀ hw).hooked
  have hsame : Same s r.2 := by
    rw [hput]
    exact ⟨rfl, rfl, rfl⟩
  have hconnected' : r.2.connected = false := by
    rw [hput]
    exact hconnected
  have hwaiting : Guarded .waiting r.2 :=
    hsame.guarded hs (.inr ⟨hconnected', .inr ⟨_, _, hattached', hhooked.read, hhooked.write⟩⟩)
  split at h
  · cases h
    exact hwaiting
  split at h
  · cases h
  · exact guarded_call_handler hwaiting hconnected' hattached' h

theorem guarded_process_connection (ev : ProxyEvent) (from_upstream : Bool)
    (hs : Guarded .waiting s) : Guarded (s.process_connection ev from_upstream) s := by
  have hprocess : ∀ from_upstream do_write, Guarded (.process from_upstream do_write) s :=
    fun _ _ => ⟨hs.stream, hs.noise, hs.relayed, hs.stage⟩
  have hfinalize := hs.finalize
  simp only [process_connection, hs.stream, if_true]
  repeat' split
  all_goals first
    | exact hs
    | exact hfinalize
    | exact hprocess _ _

theorem guarded_disturb (read write : Event → Event) (prologue : PrologueData) (mem : Memory)
    (env : Env) (hs : Guarded .waiting s) :
    Guarded .waiting (s.disturb read write prologue mem env) := by
  have hconnection : ∀ {pc : Connection}, s.peer.connection = some pc →
      (s.disturb read write prologue mem env).peer.connection = some (touched read write pc) := by
    intro pc hpc
    simp only [disturb, setConnection, hpc, Option.map_some]
  refine Same.guarded (s := s) ⟨rfl, rfl, rfl⟩ hs ?_
  obtain ⟨hconnected, pc, nc, hrelaying⟩ | ⟨hconnected, hwaits⟩ := hs.stage
  · exact .inl ⟨hconnected, _, nc, hconnection hrelaying.connection, hrelaying.client_noise_connection,
      hrelaying.bound, hrelaying.handshaked, hrelaying.transport, hrelaying.hooks⟩
  obtain ⟨hpending, pc, hpc, hhooks⟩ | ⟨pc, nc, hattached, hhooks⟩ := hwaits
  · exact .inr ⟨hconnected, .inl ⟨hpending, _, hconnection hpc, hhooks⟩⟩
  · exact .inr ⟨hconnected, .inr ⟨_, nc, ⟨hconnection hattached.connection,
      hattached.client_noise_connection, ⟨hattached.client.role, hattached.client.bound,
      hattached.client.transport⟩, hattached.nodelay⟩, hhooks⟩⟩

end

end Proxy

end ngx_nsoc_proxy
