import Mathlib.Data.List.Nodup
import NoiseSocket.Proxy.Tries

open Exec Exec.Result

namespace ngx_nsoc_proxy

open ngx_nsoc ngx_nsoc_upstream

variable {S : Type}

/-- Nothing has happened in a session but the allocation of its `ngx_nsoc_upstream_t`. -/
def Proxy.Created (s : Proxy S) : Prop :=
  ∃ conf stream notify preread noise prologue mem env,
    s = Proxy.create conf stream notify preread noise prologue mem env

/-- A session from its start on the peers `us₀`, which other sessions change all the time. -/
inductive Run (N : NoiseC S) (us₀ : Upstream) (s₀ : Proxy S) :
    Upstream → Call × Proxy S → Prop where
  | started : Run N us₀ s₀ us₀ (s₀.proxy_handler us₀)
  | called {us us' : Upstream} {x x' : Call × Proxy S} (h : Run N us₀ s₀ us x)
      (hcall : CallStep N us x us' x') : Run N us₀ s₀ us' x'
  | event {us : Upstream} {s : Proxy S} {x' : Call × Proxy S} (h : Run N us₀ s₀ us (.waiting, s))
      (hevent : EventStep N s x') : Run N us₀ s₀ us x'
  | others {us us' : Upstream} {x : Call × Proxy S} (h : Run N us₀ s₀ us x)
      (hshape : us'.shape = us.shape) : Run N us₀ s₀ us' x

/-- Calls one behind the other, without a return to the event loop. -/
inductive Calls (N : NoiseC S) : Nat → Upstream → Call × Proxy S → Prop where
  | none {us : Upstream} {x : Call × Proxy S} : Calls N 0 us x
  | call {us us' : Upstream} {x x' : Call × Proxy S} {n : Nat} (hcall : CallStep N us x us' x')
      (hrest : Calls N n us' x') : Calls N (n + 1) us x

/-- The order of the calls up to the next call of `ngx_nsoc_proxy_connect`; `noise` is
whether there is a noise connection. -/
def Call.rank (noise : Bool) : Call → Nat
  | .connect => 9
  | .init_upstream => if noise then 5 else 8
  | .noise_init_connection => 7
  | .noise_handshake => 6
  | .process _ _ => 4
  | .next_upstream => 3
  | .finalize => 1
  | .waiting => 0
  | .ended => 0

/-- A bound for the calls that are still to come. -/
def bound (x : Call × Proxy S) : Nat :=
  10 * x.2.peer.tries + x.1.rank x.2.client_noise_connection.isSome

section

variable {us us' : Upstream} {call call' : Call} {a a' : Account}

theorem Account.Step.tries_le (h : Account.Step us us' a a') : a'.tries ≤ a.tries := by
  cases h with
  | free =>
    simp only [triesLeft]
    split <;> omega
  | _ => exact Nat.le_refl _

/-- On the way to another attempt a try is used up. -/
theorem Moves.tries_lt (h : Moves us us' call .connect a a') (hs : a.Sound us call)
    (hpos : a.sockaddr.isSome = true → 1 ≤ a.tries) : a'.tries < a.tries := by
  obtain ⟨hstep, hleads, hholds, -⟩ := h
  have hnext : call = .next_upstream := by
    cases call with
    | next_upstream => rfl
    | connect | init_upstream | noise_init_connection | process => simp [Proxy.Leads] at hleads
    | noise_handshake => simp [Proxy.Leads] at hleads
    | finalize => cases hleads
    | waiting | ended => exact hleads.elim
  subst hnext
  have hsome : a.sockaddr.isSome = true := hs.holds
  have htries := hpos hsome
  have hnone : a'.sockaddr = none := hholds
  cases hstep with
  | keep => simp [hnone] at hsome
  | busy hold => simp [hold] at hsome
  | select => cases hnone
  | free =>
    simp only [triesLeft]
    split <;> omega

end

namespace Proxy

variable {us us' : Upstream} {s s' : Proxy S} {call : Call}

/-- The noise handshake with an upstream is started once in a session. -/
theorem noise_of_init_upstream {nodelay : Bool}
    (h : s.init_upstream nodelay us = ok (.noise_init_connection, us', s')) :
    s.client_noise_connection.isSome = false := by
  unfold init_upstream at h
  split at h
  · cases h
  simp only at h
  split at h
  · cases h
  split at h
  · rename_i hnoise
    simpa using hnoise.2.2
  · obtain ⟨us₁, -, h⟩ := bind_eq_ok_iff.mp h
    simp only at h
    split at h
    · cases h
    split at h
    · cases h
    · cases h

theorem noise_of_noise_handshake (h : s.noise_handshake = ok (.init_upstream, s')) :
    s'.client_noise_connection.isSome = true := by
  unfold noise_handshake at h
  split at h
  · cases h
  · rename_i nc hnc
    split at h
    · cases h
      simp [setWriteTimer, setConnection, hnc]
    · cases h

end Proxy

/-- Apart from another attempt, a call leads to one that stands behind it in the order. -/
theorem CallStep.rank_lt {N : NoiseC S} {us us' : Upstream} {x x' : Call × Proxy S}
    (h : CallStep N us x us' x') (hleads : Proxy.Leads x.1 x'.1) (hne : x'.1 ≠ .connect) :
    x'.1.rank x'.2.client_noise_connection.isSome < x.1.rank x.2.client_noise_connection.isSome := by
  have hinit : ∀ noise, Call.rank noise .init_upstream ≤ 8 := by
    intro noise
    cases noise <;> decide
  have hinit' : ∀ noise, 5 ≤ Call.rank noise .init_upstream := by
    intro noise
    cases noise <;> decide
  cases h with
  | @connect _ s s' call now answer h =>
    have hbound := hinit s'.client_noise_connection.isSome
    obtain rfl | rfl | rfl | rfl := hleads
    · simp [Call.rank]
    · simp [Call.rank]
    · exact Nat.lt_succ_of_le hbound
    · simp [Call.rank]
  | @init_upstream _ s s' call nodelay h =>
    have hbound := hinit' s.client_noise_connection.isSome
    obtain rfl | rfl | rfl | rfl := hleads
    · exact Nat.lt_of_lt_of_le (by simp [Call.rank]) hbound
    · have hnone := Proxy.noise_of_init_upstream h
      simp [Call.rank, hnone]
    · exact Nat.lt_of_lt_of_le (by simp [Call.rank]) hbound
    · exact Nat.lt_of_lt_of_le (by simp [Call.rank]) hbound
  | noise_init_connection fuel h =>
    obtain rfl | rfl | rfl := hleads <;> simp [Call.rank]
  | noise_handshake h =>
    obtain rfl | rfl := hleads
    · have hsome := Proxy.noise_of_noise_handshake h
      simp [Call.rank, hsome]
    · simp [Call.rank]
  | process answer from_upstream do_write =>
    obtain hcall | hcall | hcall := hleads <;> simp [hcall, Call.rank]
  | next_upstream now expired h =>
    obtain rfl | rfl := hleads
    · simp [Call.rank]
    · exact absurd rfl hne
  | finalize now h =>
    cases hleads
    simp [Call.rank]

/-- With each call a session comes closer to its end or to the event loop. -/
theorem CallStep.bound_lt {N : NoiseC S} {us us' : Upstream} {x x' : Call × Proxy S}
    (h : CallStep N us x us' x') (hus : us.Ready) (hs : x.2.account.Sound us x.1)
    (hpos : x.2.account.sockaddr.isSome = true → 1 ≤ x.2.account.tries) : bound x' < bound x := by
  have hmoves := h.moves hus hs
  unfold bound
  by_cases hcall : x'.1 = .connect
  · have hlt : x'.2.peer.tries < x.2.peer.tries := by
      rw [hcall] at hmoves
      exact hmoves.tries_lt hs hpos
    have hrank : x'.1.rank x'.2.client_noise_connection.isSome = 9 := by
      rw [hcall]
      rfl
    omega
  · have hle : x'.2.peer.tries ≤ x.2.peer.tries := hmoves.step.tries_le
    have hrank := h.rank_lt hmoves.leads hcall
    omega

/-- The pointers of a session are valid, and what it has tried is known. -/
structure Going (tries : Nat) (us : Upstream) (x : Call × Proxy S) : Prop where
  ready : us.Ready
  sound : x.2.account.Sound us x.1
  tried : x.2.account.Tried us tries x.1

section

variable {N : NoiseC S} {us us' us₀ : Upstream} {s₀ : Proxy S} {x x' : Call × Proxy S} {tries n : Nat}

theorem Going.called (h : Going tries us x) (hcall : CallStep N us x us' x') : Going tries us' x' := by
  have hmoves := hcall.moves h.ready h.sound
  exact ⟨h.ready.congr hmoves.step.shape, hmoves.sound h.sound, hmoves.tried h.ready h.sound h.tried⟩

theorem Going.event {s : Proxy S} (h : Going tries us (.waiting, s)) (hevent : EventStep N s x') :
    Going tries us x' := by
  have hbits := h.tried.bits.resolve_left nofun
  have hsome : s.account.sockaddr.isSome = true := h.sound.holds
  refine ⟨h.ready, hevent.sound h.sound, ?_⟩
  rw [hevent.account.1]
  exact { h.tried with
    bits := .inr (.inr (hbits.resolve_left nofun))
    positive := fun _ => h.tried.positive (.inr hsome) }

theorem Going.others (h : Going tries us x) (hshape : us'.shape = us.shape) : Going tries us' x :=
  ⟨h.ready.congr hshape, h.sound.congr hshape, h.tried.congr hshape⟩

theorem going_proxy_handler (hus : us₀.Ready) (hs₀ : s₀.Created) :
    Going (Proxy.SrvConf.tries s₀.conf us₀.tries) us₀ (s₀.proxy_handler us₀) := by
  obtain ⟨conf, stream, notify, preread, noise, prologue, mem, env, rfl⟩ := hs₀
  refine ⟨hus, (Proxy.sound_proxy_handler us₀ conf stream notify preread noise prologue mem env).1, ?_⟩
  have hpos : 1 ≤ Proxy.SrvConf.tries conf us₀.tries := by
    have hprimary := hus.primary
    unfold Proxy.SrvConf.tries
    split
    · omega
    · unfold Upstream.tries
      omega
  simp only [Proxy.proxy_handler]
  split
  · exact ⟨.nil, .inl rfl, Nat.zero_le _, by simp [Proxy.account, Proxy.create, Proxy.ngx_alloc],
      fun _ => .inl rfl⟩
  · refine ⟨.nil, .inr (.inr ⟨?_, ?_⟩), (Nat.zero_add _).le, fun _ => hpos, fun _ => .inl rfl⟩
    · intro _ a ha
      exact absurd ha List.not_mem_nil
    · intro _ a ha
      exact absurd ha List.not_mem_nil

theorem Run.going (hus : us₀.Ready) (hs₀ : s₀.Created) (h : Run N us₀ s₀ us x) :
    Going (Proxy.SrvConf.tries s₀.conf us₀.tries) us x := by
  induction h with
  | started => exact going_proxy_handler hus hs₀
  | called _ hcall ih => exact ih.called hcall
  | event _ hevent ih => exact ih.event hevent
  | others _ hshape ih => exact ih.others hshape

theorem Calls.le_bound (h : Calls N n us x) (hx : Going tries us x) : n ≤ bound x := by
  induction h with
  | none => exact Nat.zero_le _
  | call hcall hrest ih =>
    have hlt := hcall.bound_lt hx.ready hx.sound fun hsome => hx.tried.positive (.inr hsome)
    have hle := ih (hx.called hcall)
    omega

/-- Attempts behind one another are for distinct primary peers, then for distinct backups. -/
theorem exists_groups {attempts : List (Group × Nat)} (h : attempts.Pairwise After) :
    ∃ primaries backups : List Nat,
      attempts.reverse = primaries.map (Prod.mk .primary) ++ backups.map (Prod.mk .backup) ∧
        primaries.Nodup ∧ backups.Nodup := by
  obtain ⟨primaries, backups, heq⟩ : ∃ primaries backups : List Nat,
      attempts.reverse = primaries.map (Prod.mk .primary) ++ backups.map (Prod.mk .backup) := by
    induction attempts with
    | nil => exact ⟨[], [], rfl⟩
    | cons x attempts ih =>
      obtain ⟨hx, hrest⟩ := List.pairwise_cons.mp h
      obtain ⟨primaries, backups, heq⟩ := ih hrest
      obtain ⟨g, p⟩ := x
      cases g with
      | backup => exact ⟨primaries, backups ++ [p], by simp [heq]⟩
      | primary =>
        have hnone : backups = [] := by
          apply List.eq_nil_iff_forall_not_mem.mpr
          intro q hq
          have hmem : (Group.backup, q) ∈ attempts := by
            rw [← List.mem_reverse, heq]
            simp [hq]
          have hprimary := (hx _ hmem).2 rfl
          cases hprimary
        subst hnone
        exact ⟨primaries ++ [p], [], by simp [heq]⟩
  have hnodup : attempts.reverse.Nodup := List.nodup_reverse.mpr (h.imp And.left)
  rw [heq] at hnodup
  obtain ⟨hprimaries, hbackups, -⟩ := List.nodup_append.mp hnodup
  exact ⟨primaries, backups, heq, List.Nodup.of_map _ hprimaries, List.Nodup.of_map _ hbackups⟩

/-- The peers that a session tries are distinct primary peers, then distinct backups, as many
as it had tries at its start; the calls of its functions come to an end, and no selection or
release leaves the words of its bits or the lists of the peers. -/
theorem attempts_of_run {us₁ : Upstream} (hus : us₁.Configured) (hshape : us₀.shape = us₁.shape)
    (hs₀ : s₀.Created) (h : Run N us₀ s₀ us x) :
    (∃ primaries backups : List Nat,
      x.2.attempts.reverse = primaries.map (Prod.mk .primary) ++ backups.map (Prod.mk .backup) ∧
        primaries.Nodup ∧ backups.Nodup) ∧
    x.2.attempts.length ≤ Proxy.SrvConf.tries s₀.conf us₀.tries ∧
    (∀ n, Calls N n us x → n ≤ 10 * x.2.peer.tries + 9) ∧
    (x.1 = .connect → ∀ now, ∃ r, get_round_robin_peer now us x.2.peer = ok r) ∧
    (x.1 = .next_upstream → ∀ now expired, ∃ r, x.2.next_upstream now expired us = ok r) := by
  have hgoing := h.going (hus.ready.congr hshape) hs₀
  refine ⟨exists_groups hgoing.tried.order, ?_, ?_, ?_, ?_⟩
  · have htries := hgoing.tried.tries
    have hattempts : x.2.attempts = x.2.peer.sockaddr.toList ++ x.2.freed := hgoing.sound.attempts
    rw [hattempts]
    cases hsockaddr : x.2.peer.sockaddr with
    | none =>
      simp only [Option.toList_none, List.nil_append]
      exact Nat.le_of_add_right_le htries
    | some at_ =>
      have hpos : 1 ≤ x.2.peer.tries := hgoing.tried.positive (.inr (by simp [Proxy.account, hsockaddr]))
      have hfreed : x.2.freed.length + x.2.peer.tries ≤ _ := htries
      simp only [Option.toList_some, List.singleton_append, List.length_cons]
      omega
  · intro n hcalls
    have hle := hcalls.le_bound hgoing
    have hrank : x.1.rank x.2.client_noise_connection.isSome ≤ 9 := by
      cases x.1 <;> simp only [Call.rank] <;> (try split) <;> omega
    unfold bound at hle
    omega
  · intro hcall now
    have hsound := hgoing.sound
    rw [hcall] at hsound
    obtain ⟨r, hget, -⟩ := @get_round_robin_peer_spec now _ x.2.peer hgoing.ready hsound.group
      ((hsound.fits.resolve_left nofun).resolve_left nofun)
    exact ⟨r, hget⟩
  · intro hcall now expired
    obtain ⟨us', s', hfree, -⟩ := Proxy.free_peer_spec now true hgoing.sound
    simp only [Proxy.next_upstream, hfree, bind_ok]
    split
    · exact ⟨_, rfl⟩
    split <;> exact ⟨_, rfl⟩

/-- A group of more peers than a word has bits, of which only the last one is up, and a backup. -/
def large_group : List Server :=
  [⟨64, 1, 0, 1, 10, true, false⟩, ⟨1, 1, 0, 1, 10, false, false⟩, ⟨1, 1, 0, 1, 10, false, true⟩]

def large_upstream : Upstream :=
  ⟨⟨false, server_peers false large_group⟩, some ⟨false, server_peers true large_group⟩⟩

/-- The session that passes to it. -/
def large_session : Proxy Pattern :=
  .create ⟨none, false, none, true, 0⟩ true true false ⟨.initiator, 0⟩ proxy_prologue ⟨fun _ => 0, []⟩
    (.quiet [] false)

set_option maxRecDepth 4000 in
/-- The only peer that is up has its bit in the second word. It refuses the connection, and so does the
backup. -/
theorem attempts_of_large_group :
    ∃ x : Call × Proxy Pattern, x.2.attempts = [(.backup, 0), (.primary, 64)] ∧
      x.2.attempts.length ≤ 66 := by
  have hus : large_upstream.Configured := .inl ⟨large_group, rfl⟩
  have hcreated : large_session.Created := ⟨_, _, _, _, _, _, _, _, rfl⟩
  have hstarted : Run pattern_xx large_upstream large_session _ _ := .started
  have hfirst := hstarted.called (.connect 0 .declined rfl)
  have hnext := hfirst.called (.next_upstream 0 false rfl)
  have hsecond := hnext.called (.connect 0 .declined rfl)
  have htries := (attempts_of_run hus rfl hcreated hsecond).2.1
  exact ⟨_, by decide, htries.trans (by decide)⟩

end

end ngx_nsoc_proxy
