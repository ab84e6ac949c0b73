import NoiseSocket.Proxy.Protected
import NoiseSocket.Proxy.Tries.Run

open Exec Exec.Result

namespace ngx_nsoc_proxy

open ngx_nsoc ngx_nsoc_upstream

variable {S : Type}

/-- While a session is connected, the noise handshake with the current upstream connection is
over, and no client data has been passed to an upstream connection in clear text. -/
def Protected (x : Call × Proxy S) : Prop :=
  (x.1 ≠ .ended → x.2.connected = true → ∃ pc nc, x.2.peer.connection = some pc ∧
    x.2.client_noise_connection = some nc ∧ nc.connection = pc.id ∧ nc.handshaked = true) ∧
    ∀ t ∈ x.2.relayed, t = .noise

/-- A noise connection whose handshake is not over is still there when
`ngx_nsoc_proxy_init_upstream` is called: it is that of an earlier peer. -/
def Stale (x : Call × Proxy S) : Prop :=
  x.1 = .init_upstream ∧ ∃ nc, x.2.client_noise_connection = some nc ∧ nc.handshaked = false

/-- A run of a session, with any peers at each call, in which no step starts from a stale
noise connection. -/
inductive CleanRun (N : NoiseC S) (s₀ : Proxy S) : Call × Proxy S → Prop where
  | started (us : Upstream) : CleanRun N s₀ (s₀.proxy_handler us)
  | called (us : Upstream) {us' : Upstream} {x x' : Call × Proxy S} (h : CleanRun N s₀ x)
      (hclean : ¬ Stale x) (hcall : CallStep N us x us' x') : CleanRun N s₀ x'
  | event {s : Proxy S} {x' : Call × Proxy S} (h : CleanRun N s₀ (.waiting, s))
      (hevent : EventStep N s x') : CleanRun N s₀ x'

section

variable {N : NoiseC S} {us us' : Upstream} {s s' s₀ : Proxy S} {x x' : Call × Proxy S}

open Proxy

theorem guarded_called (h : Guarded x.1 x.2) (hclean : ¬ Stale x) (hcall : CallStep N us x us' x') :
    Guarded x'.1 x'.2 := by
  cases hcall with
  | connect now answer hcall => exact guarded_connect h hcall
  | init_upstream nodelay hcall =>
    refine guarded_init_upstream h ?_ hcall
    intro nc hnc
    by_contra hnot
    exact hclean ⟨rfl, nc, hnc, by simpa using hnot⟩
  | noise_init_connection fuel hcall => exact guarded_noise_init_connection h hcall
  | noise_handshake hcall => exact guarded_noise_handshake h hcall
  | process answer from_upstream do_write => exact guarded_process h
  | next_upstream now expired hcall => exact guarded_next_upstream h hcall
  | finalize now hcall => exact guarded_finalize h hcall

theorem guarded_event (h : Guarded .waiting s) (hevent : EventStep N s x') :
    Guarded x'.1 x'.2 := by
  cases hevent with
  | connect_handler timedout tested hpc => exact guarded_connect_handler timedout tested h hpc
  | handshake_handler fuel timedout hpc hevent => exact guarded_handshake_handler h hpc hevent
  | upstream_handler ev hpc => exact guarded_process_connection ev _ h
  | downstream_handler ev => exact guarded_process_connection ev _ h
  | disturbed read write prologue mem env => exact guarded_disturb read write prologue mem env h

theorem guarded_started (hs₀ : s₀.Created) (hstream : s₀.stream = true)
    (hnoise : s₀.conf.noise.isSome = true) (us : Upstream) :
    Guarded (s₀.proxy_handler us).1 (s₀.proxy_handler us).2 := by
  obtain ⟨conf, stream, notify, preread, noise, prologue, mem, env, rfl⟩ := hs₀
  simp only [proxy_handler]
  split
  · refine ⟨hstream, hnoise, fun _ ht => absurd ht List.not_mem_nil, ?_⟩
    intro hc
    cases hc
  · refine ⟨hstream, hnoise, fun _ ht => absurd ht List.not_mem_nil, rfl, ?_⟩
    intro nc hnc
    cases hnc

theorem CleanRun.guarded (hs₀ : s₀.Created) (hstream : s₀.stream = true)
    (hnoise : s₀.conf.noise.isSome = true) (h : CleanRun N s₀ x) : Guarded x.1 x.2 := by
  induction h with
  | started us => exact guarded_started hs₀ hstream hnoise us
  | called _ _ hclean hcall ih => exact guarded_called ih hclean hcall
  | event _ hevent ih => exact guarded_event ih hevent

theorem Proxy.Guarded.protected (h : Guarded x.1 x.2) : Protected x := by
  refine ⟨?_, h.relayed⟩
  intro hover hconnected
  have hstage := h.stage
  have hnot : x.2.connected = false → False := fun hc => by rw [hc] at hconnected; cases hconnected
  have hrelaying : ∃ pc nc, x.2.Relaying pc nc := by
    cases hcall : x.1 with
    | waiting | process =>
      rw [hcall] at hstage
      obtain ⟨-, hrelaying⟩ | ⟨hc, -⟩ := hstage
      · exact hrelaying
      · exact (hnot hc).elim
    | connect | next_upstream | init_upstream | noise_init_connection | noise_handshake =>
      rw [hcall] at hstage
      exact (hnot hstage.1).elim
    | finalize =>
      rw [hcall] at hstage
      exact hstage hconnected
    | ended => exact absurd hcall hover
  obtain ⟨pc, nc, hrelaying⟩ := hrelaying
  exact ⟨pc, nc, hrelaying.connection, hrelaying.client_noise_connection, hrelaying.bound,
    hrelaying.handshaked⟩

/-- A stale noise connection is taken for the one of the new connection. -/
theorem noise_of_connected {nodelay : Bool} {from_upstream do_write : Bool}
    (h : s.init_upstream nodelay us = ok (.process from_upstream do_write, us', s')) :
    s'.connected = true ∧ s'.client_noise_connection = s.client_noise_connection := by
  unfold init_upstream at h
  split at h
  · cases h
  have hset : (s.set_nodelay nodelay).2.client_noise_connection = s.client_noise_connection := by
    unfold set_nodelay
    split <;> rfl
  simp only at h
  split at h
  · cases h
  split at h
  · cases h
  obtain ⟨us₁, -, h⟩ := bind_eq_ok_iff.mp h
  obtain ⟨upstream_buf, env, hbuf⟩ := (s.set_nodelay nodelay).2.alloc_upstream_buf_spec
  simp only [hbuf] at h
  split at h
  · cases h
  obtain ⟨upstream_out, env', hlink⟩ :=
    ({ (s.set_nodelay nodelay).2 with upstream_buf, env } : Proxy S).link_preread_spec
  simp only [hlink] at h
  split at h
  · cases h
  · cases h
    exact ⟨rfl, hset⟩

/-- A session whose steps never start from a stale noise connection is protected all along, and
a step that does so ends the attempt or connects the session without protection. -/
theorem protected_of_clean (hs₀ : s₀.Created) (hstream : s₀.stream = true)
    (hnoise : s₀.conf.noise.isSome = true) :
    (∀ x, CleanRun N s₀ x → Protected x) ∧
    ∀ us us' x x', Stale x → CallStep N us x us' x' → x'.1 = .process false true → ¬ Protected x' := by
  constructor
  · intro x h
    exact (h.guarded hs₀ hstream hnoise).protected
  · rintro us us' x x' ⟨hinit, nc, hnc, hnot⟩ hcall hprocess hprotected
    cases hcall with
    | @init_upstream _ s s' call nodelay hcall =>
      obtain rfl : call = Call.process false true := hprocess
      obtain ⟨hconnected, hkept⟩ := noise_of_connected hcall
      obtain ⟨pc, nc', -, hnc', -, hdone⟩ := hprotected.1 nofun hconnected
      have heq : s.client_noise_connection = some nc' := hkept.symm.trans hnc'
      rw [hnc] at heq
      cases heq
      rw [hnot] at hdone
      cases hdone
    | _ => cases hinit

end

/-- A session with noise towards its upstream. -/
def noise_proxy : Proxy Pattern :=
  .create ⟨some (⟨some ⟨0, 1⟩, none⟩, NOISE_PROTOCOL_PAYLOAD_SIZE), false, none, true, 0⟩ true true
    false ⟨.initiator, 0⟩ proxy_prologue ⟨fun _ => 0, []⟩ (.quiet [] false)

/-- A relay that passes client data to the upstream. -/
def client_data : Proxy.ProcessAnswer where
  written := true
  received := 0
  upstream_out := false
  upstream_busy := false
  buffered := false
  read := id
  write := id
  nc := id
  exit := .returned

/-- The second message of the handshake, without negotiation data. -/
def peer_answer : List Net.Item := [.data 0 ([0, 0, 96] ++ Pattern.message 1)]

/-- The peer answers the handshake, and client data goes to it with the keys of the handshake. -/
theorem protected_of_clean_answer :
    ∃ x : Call × Proxy Pattern, CleanRun pattern_xx noise_proxy x ∧ x.2.connected = true ∧
      x.2.relayed = [.noise] ∧ Protected x := by
  have hstarted : CleanRun pattern_xx noise_proxy _ := .started (implicit_round_robin 2)
  have hconnect := hstarted.called (implicit_round_robin 2) (fun h => nomatch h.1)
    (.connect 0 (.connected 1 (.quiet [] false)) rfl)
  have hinit := hconnect.called (implicit_round_robin 2)
    (fun ⟨_, nc, hnc, _⟩ => nomatch hnc) (.init_upstream true rfl)
  have hcreated := hinit.called (implicit_round_robin 2) (fun h => nomatch h.1)
    (.noise_init_connection 2 rfl)
  have hready := hcreated.event (.disturbed (fun read => { read with ready := true }) id proxy_prologue
    ⟨fun _ => 0, []⟩ (.quiet peer_answer false))
  have hanswer := hready.event (.handshake_handler 20 false ⟨rfl, .inl rfl⟩ rfl)
  have hhandshake := hanswer.called (implicit_round_robin 2) (fun h => nomatch h.1) (.noise_handshake rfl)
  have hinit' := hhandshake.called (implicit_round_robin 2) (by
    -- the noise connection is handshaked
    rintro ⟨-, nc, hnc, hnot⟩
    cases hnc
    cases hnot) (.init_upstream true rfl)
  have hprocess := hinit'.called (implicit_round_robin 2) (fun h => nomatch h.1) (.process client_data false true)
  exact ⟨_, hprocess, rfl, rfl, (protected_of_clean ⟨_, _, _, _, _, _, _, _, rfl⟩ rfl rfl).1 _ hprocess⟩

/-- The first peer does not answer the handshake until it times out, and the client data goes
to the second peer in clear text. -/
theorem not_protected_behind_timeout :
    ¬ ∀ (us₀ us : Upstream) (s₀ : Proxy Pattern) (x : Call × Proxy Pattern), us₀.Configured →
      s₀.Created → s₀.stream = true → s₀.conf.noise.isSome = true → Run pattern_xx us₀ s₀ us x →
      Protected x := by
  intro hprotects
  have hus : (implicit_round_robin 2).Configured := .inr ⟨2, by decide, rfl⟩
  have hstarted : Run pattern_xx (implicit_round_robin 2) noise_proxy _ _ := .started
  have hconnect := hstarted.called (.connect 0 (.connected 1 (.quiet [] false)) rfl)
  have hinit := hconnect.called (.init_upstream true rfl)
  have hnoise := hinit.called (.noise_init_connection 2 rfl)
  have htimeout := hnoise.event (.handshake_handler 2 true ⟨rfl, .inl rfl⟩ rfl)
  have hhandshake := htimeout.called (.noise_handshake rfl)
  have hnext := hhandshake.called (.next_upstream 0 false rfl)
  have hconnect' := hnext.called (.connect 0 (.connected 2 (.quiet [] false)) rfl)
  have hinit' := hconnect'.called (.init_upstream true rfl)
  have hprocess := hinit'.called (.process client_data false true)
  have hprotected := hprotects _ _ _ _ hus ⟨_, _, _, _, _, _, _, _, rfl⟩ rfl rfl hprocess
  have hclear := hprotected.2 .plain List.mem_cons_self
  cases hclear

end ngx_nsoc_proxy
