import Mathlib.Data.UInt
import NoiseSocket.Lib.Gaps
import NoiseSocket.Proxy.Resolved.Own
import NoiseSocket.Proxy.States

open Exec Exec.Result
open scoped UInt64.CommRing

namespace ngx_nsoc_proxy

open ngx_nsoc ngx_nsoc_upstream

variable {S : Type}

namespace Logged

variable {us us' : Upstream} {l l' : Logged S} {call : Call} {ms : UInt64}

/-- What a state says about when its attempt began and about its peer. -/
def opening (l : Logged S) : Option (UInt64 × Option PeerName) :=
  l.state.map fun state => (state.response_time, state.peer)

/-- Nothing but what an attempt in progress measures has changed. -/
structure Same (l l' : Logged S) : Prop where
  settled : l'.settled = l.settled
  opening : l'.opening = l.opening

theorem init_upstream_same {nodelay : Bool} (h : l.init_upstream ms nodelay us = ok (call, us', l')) :
    l.Same l' ∧ l.proxy.init_upstream nodelay us = ok (call, us', l'.proxy) := by
  unfold init_upstream at h
  unfold Proxy.init_upstream
  cases hpc : l.proxy.peer.connection with
  | none =>
    rw [hpc] at h
    cases h
  | some pc =>
    rw [hpc] at h
    dsimp only at h ⊢
    split at h
    · rename_i hset
      cases h
      exact ⟨⟨rfl, rfl⟩, by rw [if_pos hset]⟩
    rename_i hset
    split at h
    · rename_i hnoise
      cases h
      exact ⟨⟨rfl, rfl⟩, by rw [if_neg hset, if_pos hnoise]⟩
    rename_i hnoise
    split at h
    · cases h
    rename_i state hstate
    obtain ⟨r, hr, h⟩ := bind_eq_ok_iff.mp h
    cases h
    refine ⟨⟨rfl, by simp [opening, hstate]⟩, ?_⟩
    rw [if_neg hset, if_neg hnoise]
    exact hr

theorem process_same {answer : Proxy.ProcessAnswer} {read from_upstream : Bool} {x' : Call × Logged S}
    (h : l.process ms answer read from_upstream = ok x') :
    l.Same x'.2 ∧ l.proxy.process answer from_upstream = (x'.1, x'.2.proxy) := by
  unfold process at h
  simp only at h
  split at h
  · split at h
    · cases h
    · rename_i state hstate
      cases h
      refine ⟨⟨rfl, ?_⟩, rfl⟩
      simp only [opening, hstate, Option.map_some, first_byte]
      split <;> rfl
  · cases h
    exact ⟨⟨rfl, rfl⟩, rfl⟩

theorem next_upstream_same {now : Int} {expired : Bool} {sent : Nat}
    (h : l.next_upstream now expired sent us = ok (call, us', l')) :
    l.Same l' ∧ l.proxy.next_upstream now expired us = ok (call, us', l'.proxy) := by
  obtain ⟨r, hr, h⟩ := bind_eq_ok_iff.mp h
  cases h
  refine ⟨⟨rfl, ?_⟩, hr⟩
  simp only [opening]
  split
  · rw [Option.map_map]
    rfl
  · rfl

theorem finalize_settles {now : Int} {sent : Nat} (h : l.finalize ms now sent us = ok (call, us', l')) :
    l'.settled = l.settled ∧
      l'.opening = l.opening.map (fun begun => (ms - begun.1, begun.2)) ∧
      l.proxy.finalize now us = ok (call, us', l'.proxy) := by
  obtain ⟨r, hr, h⟩ := bind_eq_ok_iff.mp h
  cases h
  refine ⟨rfl, ?_, hr⟩
  simp only [opening]
  split
  · simp only [Option.map_map]
    rfl
  · simp only [Option.map_map]
    rfl

theorem map_response_time (l : Logged S) : l.upstream_states.map UpstreamState.response_time =
    l.settled.map UpstreamState.response_time ++ (l.opening.map Prod.fst).toList := by
  unfold upstream_states opening
  cases l.state <;> simp

theorem map_peer (l : Logged S) : l.upstream_states.map UpstreamState.peer =
    l.settled.map UpstreamState.peer ++ (l.opening.map Prod.snd).toList := by
  unfold upstream_states opening
  cases l.state <;> simp

/-- An attempt is settled and another begins, unless it cannot be noted. -/
theorem proxy_connect_begins {now : Int} {answer : Proxy.ConnectAnswer}
    (h : l.proxy_connect ms now answer us = ok (call, us', l')) :
    l'.settled = l.settled ++ (l.state.map (UpstreamState.settle ms)).toList ∧
      ((l'.state = none ∧ call = .finalize) ∨
        ∃ state, l'.state = some state ∧ state.response_time = ms ∧
          (call ≠ .finalize → state.peer = l'.proxy.peer.sockaddr.map .peer)) ∧
      l.proxy.proxy_connect now answer us = ok (call, us', l'.proxy) := by
  unfold proxy_connect at h
  unfold Proxy.proxy_connect
  simp only at h ⊢
  split at h
  · rename_i hpushed
    cases h
    rw [if_pos hpushed]
    exact ⟨rfl, .inl ⟨rfl, rfl⟩, rfl⟩
  rename_i hpushed
  rw [if_neg hpushed]
  obtain ⟨r, hr, h⟩ := bind_eq_ok_iff.mp h
  simp only [hr, bind_ok]
  by_cases herror : r.1 = NGX_ERROR
  · rw [if_pos herror] at h
    rw [if_pos (.inl herror)]
    cases h
    exact ⟨rfl, .inr ⟨_, rfl, rfl, fun hne => absurd rfl hne⟩, rfl⟩
  rw [if_neg herror] at h
  by_cases hbusy : r.1 = NGX_BUSY
  · rw [if_pos hbusy] at h
    rw [if_pos (.inr hbusy)]
    cases h
    exact ⟨rfl, .inr ⟨_, rfl, rfl, fun hne => absurd rfl hne⟩, rfl⟩
  have hname : peer_name r.1 r.2.2 = r.2.2.peer.sockaddr.map .peer := if_neg hbusy
  rw [if_neg hbusy] at h
  rw [if_neg (not_or.mpr ⟨herror, hbusy⟩)]
  by_cases hdeclined : r.1 = NGX_DECLINED
  · rw [if_pos hdeclined] at h ⊢
    cases h
    exact ⟨rfl, .inr ⟨_, rfl, rfl, fun _ => hname⟩, rfl⟩
  rw [if_neg hdeclined] at h ⊢
  by_cases hagain : r.1 ≠ NGX_AGAIN
  · rw [if_pos hagain] at h ⊢
    cases h
    exact ⟨rfl, .inr ⟨_, rfl, rfl, fun _ => hname⟩, rfl⟩
  · rw [if_neg hagain] at h ⊢
    cases h
    exact ⟨rfl, .inr ⟨_, rfl, rfl, fun _ => hname⟩, rfl⟩

end Logged

section

variable {N : NoiseC S} {us us' us₀ : Upstream} {s₀ : Proxy S} {x x' : Call × Logged S} {ms : UInt64}
  {times : List UInt64} {tries : Nat}

/-- A call without the states. -/
theorem LoggedCall.call (h : LoggedCall N ms us x us' x') :
    CallStep N us (x.1, x.2.proxy) us' (x'.1, x'.2.proxy) := by
  cases h with
  | connect now answer h => exact .connect now answer (Logged.proxy_connect_begins h).2.2
  | init_upstream nodelay h => exact .init_upstream nodelay (Logged.init_upstream_same h).2
  | noise_init_connection fuel h => exact .noise_init_connection fuel h
  | noise_handshake h => exact .noise_handshake h
  | process answer read from_upstream do_write h =>
    rw [← (Logged.process_same h).2]
    exact .process answer from_upstream do_write
  | next_upstream now expired sent h => exact .next_upstream now expired (Logged.next_upstream_same h).2
  | finalize now sent h => exact .finalize now (Logged.finalize_settles h).2.2

theorem LoggedCall.same (h : LoggedCall N ms us x us' x') (hconnect : x.1 ≠ .connect)
    (hfinalize : x.1 ≠ .finalize) : x.2.Same x'.2 := by
  cases h with
  | connect now answer h => exact absurd rfl hconnect
  | init_upstream nodelay h => exact (Logged.init_upstream_same h).1
  | noise_init_connection fuel h => exact ⟨rfl, rfl⟩
  | noise_handshake h => exact ⟨rfl, rfl⟩
  | process answer read from_upstream do_write h => exact (Logged.process_same h).1
  | next_upstream now expired sent h => exact (Logged.next_upstream_same h).1
  | finalize now sent h => exact absurd rfl hfinalize

/-- A session without its states. -/
theorem LoggedRun.run (h : LoggedRun N us₀ s₀ times us x) : Run N us₀ s₀ us (x.1, x.2.proxy) := by
  induction h with
  | started => exact .started
  | called _ ms hcall ih => exact ih.called hcall.call
  | event _ hevent ih => exact ih.event hevent
  | others _ hshape ih => exact ih.others hshape

/-- How long the attempts took that are over, and when the one in progress began: `times` are those at
which attempts began and ended. -/
structure Tiled (times : List UInt64) (x : Call × Logged S) : Prop where
  empty : x.1 = .connect → x.2.opening = none → times = []
  settled : x.1 ≠ .ended → x.2.settled.map UpstreamState.response_time = Gaps.gaps times
  begun : x.1 ≠ .ended → ∀ begun, x.2.opening = some begun → ∃ front, times = front ++ [begun.1]
  ended : x.1 = .ended → x.2.upstream_states.map UpstreamState.response_time = Gaps.gaps times

/-- The peers that are noted are those that were tried; where the session stands at an attempt, it is
noted. -/
structure Named (x : Call × Logged S) : Prop where
  settled : x.2.settled.map UpstreamState.peer =
    (x.2.proxy.attempts.reverse.take x.2.settled.length).map fun at_ => some (.peer at_)
  current : x.1 ≠ .finalize → x.1 ≠ .ended → x.2.upstream_states.map UpstreamState.peer =
    x.2.proxy.attempts.reverse.map fun at_ => some (.peer at_)
  present : x.1 ≠ .connect → x.1 ≠ .finalize → x.1 ≠ .ended → x.2.state.isSome = true

theorem ne_ended_of_leads {call call' : Call} (h : Proxy.Leads call call') (hne : call ≠ .finalize) :
    call' ≠ .ended := by
  rintro rfl
  cases call with
  | finalize => exact hne rfl
  | waiting | ended => exact h
  | _ => simp [Proxy.Leads] at h

theorem next_upstream_of_leads {call : Call} (h : Proxy.Leads call .connect) : call = .next_upstream := by
  cases call with
  | next_upstream => rfl
  | waiting | ended => exact h.elim
  | _ => simp [Proxy.Leads] at h

/-- The attempt in front is over, and another begins. -/
theorem Tiled.connected {l l' : Logged S} {call : Call} {now : Int} {answer : Proxy.ConnectAnswer}
    (h : Tiled times (.connect, l)) (hanswer : l.proxy_connect ms now answer us = ok (call, us', l'))
    (hnext : call ≠ .connect) (hended : call ≠ .ended) : Tiled (times ++ [ms]) (call, l') := by
  obtain ⟨hsettled', hstate', -⟩ := Logged.proxy_connect_begins hanswer
  have hempty := h.empty rfl
  have hsettled := h.settled (by rintro ⟨⟩)
  have hbegun := h.begun (by rintro ⟨⟩)
  simp only at hsettled hbegun hempty
  refine ⟨fun hcall => absurd hcall hnext, ?_, ?_, fun hcall => absurd hcall hended⟩
  · intro _
    simp only
    rw [hsettled', List.map_append, hsettled]
    cases hstate : l.state with
    | none =>
      rw [hempty (by simp [Logged.opening, hstate])]
      rfl
    | some state =>
      obtain ⟨front, hfront⟩ := hbegun (state.response_time, state.peer) (by simp [Logged.opening, hstate])
      rw [hfront, List.append_assoc, List.singleton_append, Gaps.gaps_append]
      rfl
  · intro _ begun hopening
    obtain ⟨hnone, -⟩ | ⟨state, hstate, htime, -⟩ := hstate'
    · simp [Logged.opening, hnone] at hopening
    · simp only [Logged.opening, hstate, Option.map_some, Option.some.injEq] at hopening
      exact ⟨times, by rw [← hopening, htime]⟩

/-- The last attempt is over. -/
theorem Tiled.finalized {l l' : Logged S} {call : Call} {now : Int} {sent : Nat}
    (h : Tiled times (.finalize, l)) (hanswer : l.finalize ms now sent us = ok (call, us', l'))
    (hended : call = .ended) : Tiled (boundaries ms (.finalize, l) times) (call, l') := by
  obtain ⟨hsettled', hopening', -⟩ := Logged.finalize_settles hanswer
  have hsettled := h.settled (by rintro ⟨⟩)
  have hbegun := h.begun (by rintro ⟨⟩)
  simp only at hsettled hbegun
  refine ⟨fun hcall => absurd (hended.symm.trans hcall) (by rintro ⟨⟩), fun hne => absurd hended hne,
    fun hne => absurd hended hne, fun _ => ?_⟩
  simp only
  rw [Logged.map_response_time, hsettled', hopening', hsettled]
  cases hstate : l.state with
  | none => simp [boundaries, Logged.opening, hstate]
  | some state =>
    obtain ⟨front, hfront⟩ := hbegun (state.response_time, state.peer) (by simp [Logged.opening, hstate])
    have htimes : boundaries ms (.finalize, l) times = front ++ [state.response_time, ms] := by
      simp [boundaries, hstate, hfront]
    rw [htimes, Gaps.gaps_append, hfront]
    simp [Logged.opening, hstate]

theorem Tiled.called (h : Tiled times x) (hcall : LoggedCall N ms us x us' x')
    (hleads : Proxy.Leads x.1 x'.1) (hpresent : x.1 = .next_upstream → x.2.state.isSome = true) :
    Tiled (boundaries ms x times) x' := by
  by_cases hconnect : x.1 = .connect
  · have hended : x'.1 ≠ .ended := ne_ended_of_leads hleads (by rw [hconnect]; rintro ⟨⟩)
    have hnext : x'.1 ≠ .connect := by
      intro hnext
      rw [hnext] at hleads
      cases hconnect.symm.trans (next_upstream_of_leads hleads)
    obtain ⟨call, l⟩ := x
    obtain rfl : call = .connect := hconnect
    cases hcall with
    | connect now answer hanswer => exact h.connected hanswer hnext hended
  by_cases hfinalize : x.1 = .finalize
  · have hended : x'.1 = .ended := by
      rw [hfinalize] at hleads
      exact hleads
    obtain ⟨call, l⟩ := x
    obtain rfl : call = .finalize := hfinalize
    cases hcall with
    | finalize now sent hanswer => exact h.finalized hanswer hended
  · have hsame := hcall.same hconnect hfinalize
    have hended : x'.1 ≠ .ended := ne_ended_of_leads hleads hfinalize
    have hold : x.1 ≠ .ended := by
      intro hold
      rw [hold] at hleads
      exact hleads
    have htimes : boundaries ms x times = times := by simp [boundaries, hconnect, hfinalize]
    rw [htimes]
    refine ⟨?_, fun _ => by rw [hsame.settled]; exact h.settled hold, ?_, fun hcall' => absurd hcall' hended⟩
    · intro hnext hnone
      rw [hnext] at hleads
      have hsome := hpresent (next_upstream_of_leads hleads)
      rw [hsame.opening] at hnone
      simp only [Logged.opening, Option.map_eq_none_iff] at hnone
      simp [hnone] at hsome
    · intro _ begun hopening
      rw [hsame.opening] at hopening
      exact h.begun hold begun hopening

/-- A session that connects frees no peer, and holds the one it may have got. -/
theorem attempts_of_connect {s' : Proxy S} {call : Call} (hgoing : Going tries us (.connect, x.2.proxy))
    (hcall : CallStep N us (.connect, x.2.proxy) us' (call, s')) :
    s'.attempts = s'.peer.sockaddr.toList ++ x.2.proxy.attempts ∧ call.Holds s'.peer.sockaddr := by
  have hgoing' := hgoing.called hcall
  have hmoves := hcall.moves hgoing.ready hgoing.sound
  have hnone : x.2.proxy.account.sockaddr = none := hgoing.sound.holds
  have hattempts : x.2.proxy.attempts = x.2.proxy.peer.sockaddr.toList ++ x.2.proxy.freed :=
    hgoing.sound.attempts
  have hattempts' : s'.attempts = s'.peer.sockaddr.toList ++ s'.freed := hgoing'.sound.attempts
  have hfreed : s'.account.freed = x.2.proxy.account.freed := by
    have hstep := hmoves.step
    generalize s'.account = a' at hstep
    cases hstep with
    | keep hkeeps => rfl
    | busy hnone' hkeeps hgroup => rfl
    | select hnone' hconnects hlength hmarks hswitch => rfl
    | free hsome hfrees hshape => simp [hnone] at hsome
  have hfreed' : s'.freed = x.2.proxy.freed := hfreed
  have hnone' : x.2.proxy.peer.sockaddr = none := hnone
  rw [hnone', Option.toList_none, List.nil_append] at hattempts
  exact ⟨by rw [hattempts', hfreed', hattempts], hmoves.holds⟩

/-- The peer of the attempt that begins is noted behind the others. -/
theorem Named.connected {l l' : Logged S} {call : Call} {now : Int} {answer : Proxy.ConnectAnswer}
    (h : Named (.connect, l)) (hanswer : l.proxy_connect ms now answer us = ok (call, us', l'))
    (hattempts : l'.proxy.attempts = l'.proxy.peer.sockaddr.toList ++ l.proxy.attempts)
    (hheld : call ≠ .finalize → l'.proxy.peer.sockaddr.isSome = true) : Named (call, l') := by
  have hold := h.current (by rintro ⟨⟩) (by rintro ⟨⟩)
  obtain ⟨hsettled, hstate, -⟩ := Logged.proxy_connect_begins hanswer
  simp only at hold
  have hpeers : l'.settled.map UpstreamState.peer =
      l.proxy.attempts.reverse.map fun at_ => some (.peer at_) := by
    rw [← hold, hsettled, Logged.upstream_states, List.map_append, List.map_append]
    cases l.state <;> rfl
  have hlength : l'.settled.length = l.proxy.attempts.reverse.length := by
    simpa using congrArg List.length hpeers
  have hreverse : l'.proxy.attempts.reverse =
      l.proxy.attempts.reverse ++ l'.proxy.peer.sockaddr.toList.reverse := by
    rw [hattempts, List.reverse_append]
  refine ⟨?_, ?_, ?_⟩
  · simp only
    rw [hreverse, List.take_left' hlength.symm, hpeers]
  · intro hfinalize _
    obtain ⟨-, hcall⟩ | ⟨state, hstate, -, hpeer⟩ := hstate
    · exact absurd hcall hfinalize
    · obtain ⟨at_, hat⟩ := Option.isSome_iff_exists.mp (hheld hfinalize)
      have hname := hpeer hfinalize
      rw [hat] at hname
      simp only
      rw [hreverse, hat, Logged.upstream_states, hstate, List.map_append, hpeers, List.map_append]
      simp [hname]
  · intro _ hfinalize _
    obtain ⟨-, hcall⟩ | ⟨state, hstate, -, -⟩ := hstate
    · exact absurd hcall hfinalize
    · simp [hstate]

theorem Named.called (h : Named x) (hcall : LoggedCall N ms us x us' x')
    (hgoing : Going tries us (x.1, x.2.proxy)) : Named x' := by
  have hproxy := hcall.call
  have hleads := (hproxy.moves hgoing.ready hgoing.sound).leads
  by_cases hconnect : x.1 = .connect
  · obtain ⟨call, l⟩ := x
    obtain rfl : call = .connect := hconnect
    obtain ⟨hattempts, hholds⟩ := attempts_of_connect (x := (.connect, l)) hgoing hproxy
    have hheld : x'.1 ≠ .finalize → x'.2.proxy.peer.sockaddr.isSome = true := by
      intro hfinalize
      obtain ⟨call', l'⟩ := x'
      obtain rfl | rfl | rfl | rfl := hleads
      · exact absurd rfl hfinalize
      all_goals exact hholds
    cases hcall with
    | connect now answer hanswer => exact h.connected hanswer hattempts hheld
  have hattempts := (hproxy.touched hconnect).2.2
  simp only at hattempts
  by_cases hfinalize : x.1 = .finalize
  · have hended : x'.1 = .ended := by
      rw [hfinalize] at hleads
      exact hleads
    refine ⟨?_, fun _ hne => absurd hended hne, fun _ _ hne => absurd hended hne⟩
    rw [hattempts]
    obtain ⟨call, l⟩ := x
    obtain rfl : call = .finalize := hfinalize
    cases hcall with
    | finalize now sent hanswer =>
      have hsettled := (Logged.finalize_settles hanswer).1
      simp only
      rw [hsettled]
      exact h.settled
  · have hsame := hcall.same hconnect hfinalize
    have hended : x.1 ≠ .ended := by
      intro hold
      rw [hold] at hleads
      exact hleads
    refine ⟨by rw [hattempts, hsame.settled]; exact h.settled, ?_, ?_⟩
    · intro _ _
      rw [hattempts, Logged.map_peer, hsame.settled, hsame.opening, ← Logged.map_peer]
      exact h.current hfinalize hended
    · intro _ _ _
      have hpresent := h.present hconnect hfinalize hended
      have hopening := congrArg Option.isSome hsame.opening
      simp only [Logged.opening, Option.isSome_map] at hopening
      rw [hopening, hpresent]

/-- What is noted in a run, with the invariant of the session itself. -/
theorem LoggedRun.sound (hus : us₀.Ready) (hs₀ : s₀.Created) (h : LoggedRun N us₀ s₀ times us x) :
    Tiled times x ∧ Named x := by
  induction h with
  | started =>
    obtain ⟨conf, stream, notify, preread, noise, prologue, mem, env, rfl⟩ := hs₀
    have hattempts : (Proxy.proxy_handler us₀ (.create conf stream notify preread noise prologue mem
        env)).2.attempts = [] := by
      simp only [Proxy.proxy_handler]
      split <;> rfl
    have hcall : (Proxy.proxy_handler us₀ (.create conf stream notify preread noise prologue mem
        env)).1 = .connect ∨ (Proxy.proxy_handler us₀ (.create conf stream notify preread noise prologue
        mem env)).1 = .finalize := by
      simp only [Proxy.proxy_handler]
      split
      · exact .inr rfl
      · exact .inl rfl
    refine ⟨⟨fun _ _ => rfl, fun _ => rfl, fun _ begun hopening => by simp [Logged.opening] at hopening,
      fun _ => rfl⟩, by simp, ?_, ?_⟩
    · intro _ _
      simp [Logged.upstream_states, hattempts]
    · intro hconnect hfinalize _
      obtain hcall | hcall := hcall
      · exact absurd hcall hconnect
      · exact absurd hcall hfinalize
  | called hrun ms hcall ih =>
    have hgoing := hrun.run.going hus hs₀
    have hleads := (hcall.call.moves hgoing.ready hgoing.sound).leads
    refine ⟨ih.1.called hcall hleads ?_, ih.2.called hcall hgoing⟩
    intro hnext
    exact ih.2.present (by rw [hnext]; rintro ⟨⟩) (by rw [hnext]; rintro ⟨⟩) (by rw [hnext]; rintro ⟨⟩)
  | event hrun hevent ih =>
    obtain ⟨haccount, hconnect, hended⟩ := hevent.account
    have hattempts := (Proxy.data_of_account haccount).2
    obtain ⟨htiled, hnamed⟩ := ih
    refine ⟨⟨fun hcall => absurd hcall hconnect, fun _ => htiled.settled (by rintro ⟨⟩),
      fun _ => htiled.begun (by rintro ⟨⟩), fun hcall => absurd hcall hended⟩, ?_, ?_, ?_⟩
    · simp only
      rw [hattempts]
      exact hnamed.settled
    · intro _ _
      simp only
      rw [hattempts]
      exact hnamed.current (by rintro ⟨⟩) (by rintro ⟨⟩)
    · intro _ _ _
      exact hnamed.present (by rintro ⟨⟩) (by rintro ⟨⟩) (by rintro ⟨⟩)
  | others _ _ ih => exact ih

theorem Named.length_le (h : Named x) : x.2.settled.length ≤ x.2.proxy.attempts.length := by
  have hlength := congrArg List.length h.settled
  simp only [List.length_map, List.length_take, List.length_reverse] at hlength
  omega

/-- Whatever the clock says, the states of a session say how long each attempt took, from its beginning
to that of the next one or to the end of the session, and which peer it was for, in the order in which
the peers were tried; where a function of the session needs the state of the attempt, there is one. -/
theorem states_of_run {us₁ : Upstream} (hus : us₁.Configured) (hshape : us₀.shape = us₁.shape)
    (hs₀ : s₀.Created) (h : LoggedRun N us₀ s₀ times us x) :
    (x.1 ≠ .ended → x.2.settled.map UpstreamState.response_time = Gaps.gaps times) ∧
    (x.1 = .ended → x.2.upstream_states.map UpstreamState.response_time = Gaps.gaps times ∧
      ∀ first front last, times = first :: (front ++ [last]) →
        (x.2.upstream_states.map UpstreamState.response_time).sum = last - first) ∧
    x.2.settled.map UpstreamState.peer =
      (x.2.proxy.attempts.reverse.take x.2.settled.length).map (fun at_ => some (.peer at_)) ∧
    (x.1 ≠ .finalize → x.1 ≠ .ended → x.2.upstream_states.map UpstreamState.peer =
      x.2.proxy.attempts.reverse.map fun at_ => some (.peer at_)) ∧
    (x.1 ≠ .connect → x.1 ≠ .finalize → x.1 ≠ .ended → x.2.state.isSome = true) ∧
    x.2.upstream_states.length ≤ Proxy.SrvConf.tries s₀.conf us₀.tries + 1 := by
  have hready := hus.ready.congr hshape
  obtain ⟨htiled, hnamed⟩ := h.sound hready hs₀
  refine ⟨htiled.settled, ?_, hnamed.settled, hnamed.current, hnamed.present, ?_⟩
  · intro hended
    have hgaps := htiled.ended hended
    refine ⟨hgaps, ?_⟩
    rintro first front last rfl
    rw [hgaps, Gaps.sum_gaps]
  · have hsettled := hnamed.length_le
    have hattempts := (h.run.going hready hs₀).attempts_le.1
    have hstate : x.2.state.toList.length ≤ 1 := by
      cases x.2.state <;> simp
    rw [Logged.upstream_states, List.length_append]
    simp only at hattempts
    omega

/-- Two peers that refuse the connection, the session ending 300 milliseconds behind its beginning. -/
theorem states_of_two_refused : ∃ x : Call × Logged Pattern,
    (x.2.upstream_states.map UpstreamState.response_time).sum = 300 ∧
      x.2.upstream_states.length ≤ 3 := by
  have hus : (implicit_round_robin 2).Configured := .inr ⟨2, by decide, rfl⟩
  have hstarted : LoggedRun pattern_xx (implicit_round_robin 2) (.create ⟨none, false, none, true, 0⟩ true
      true false ⟨.initiator, 0⟩ proxy_prologue ⟨fun _ => 0, []⟩ (.quiet [] false)) _ _ _ := .started
  have hfirst := hstarted.called 100 (.connect 0 .declined rfl)
  have hnext := hfirst.called 100 (.next_upstream 0 false 0 rfl)
  have hsecond := hnext.called 250 (.connect 0 .declined rfl)
  have hlast := hsecond.called 250 (.next_upstream 0 false 0 rfl)
  have hended := hlast.called 400 (.finalize 0 0 rfl)
  obtain ⟨-, hsum, -, -, -, hlength⟩ := states_of_run hus rfl ⟨_, _, _, _, _, _, _, _, rfl⟩ hended
  exact ⟨_, (hsum rfl).2 100 [250] 400 (by decide), hlength⟩

end

end ngx_nsoc_proxy
