import NoiseSocket.Handler.Timers.Suspend
import NoiseSocket.NoiseC.Pattern

open Exec Exec.Result

namespace ngx_nsoc

variable {S : Type}

namespace Endpoint

/-- The invariant of the passes, unless the socket has cut a part short. -/
def Guarded (w : Endpoint S) : Prop := w.Cut ∨ w.Guard

/-- What a pass leaves behind: it goes on guarded, or it suspends with a timer. -/
def GuardedFlow : ControlFlow (Endpoint S) (Int × Endpoint S) → Prop
  | .cont w => w.Guarded
  | .done (n, w) => n = NGX_AGAIN → w.Cut ∨ w.Armed ∧ w.Guard

/-- A flow behind a cut is guarded anyway. -/
theorem guardedFlow_of_cut {w : Endpoint S} {flow : ControlFlow (Endpoint S) (Int × Endpoint S)}
    (hcut : w.Cut) (hflow : w.Extends flow) : GuardedFlow flow := by
  obtain ⟨obs, htrace⟩ := hflow
  cases flow with
  | cont v => exact .inl (hcut.of_append _ htrace)
  | done r => exact fun _ => .inl (hcut.of_append _ htrace)

theorem Calm.of_writeFrame {w w' : Endpoint S} (h : w.Calm) (hframe : WriteFrame w w') :
    w'.Calm := by
  refine ⟨?_, ?_, ?_⟩
  · rw [hframe.c]
    exact h.eof
  · rw [hframe.nc]
    exact h.neg
  · rw [hframe.nc]
    exact h.msg

theorem Calm.of_sendFrame {w w' : Endpoint S} (h : w.Calm) (hframe : SendFrame w w') :
    w'.Calm := by
  refine ⟨hframe.eof.trans h.eof, ?_, ?_⟩
  · rw [hframe.nc]
    exact h.neg
  · rw [hframe.nc]
    exact h.msg

/-- Every way out of the write path has a timer. -/
theorem Calm.sendOutcome {N : NoiseC S} {b : Buf} {w : Endpoint S}
    {flow : ControlFlow (Endpoint S) (Int × Endpoint S)} (h : w.Calm)
    (hsend : SendOutcome N b w flow) : GuardedFlow flow := by
  cases hsend with
  | refused hframe _ =>
    intro hn
    simp at hn
  | blocked hframe _ _ _ htimer =>
    exact fun _ => .inr ⟨.inr htimer, (h.of_sendFrame hframe).guard⟩
  | wait hframe _ _ _ _ htimer =>
    exact fun _ => .inr ⟨.inl htimer, (h.of_sendFrame hframe).guard⟩
  | go_on hframe _ _ _ _ => exact .inr (h.of_sendFrame hframe).guard

theorem write_message_ne_again {N : NoiseC S} {w v : Endpoint S} {n : Int} {b : Option Buf}
    (h : w.handshake_start_action_write_message N = ok (n, b, v)) : n ≠ NGX_AGAIN := by
  cases (write_message_cases h).2 with
  | refused hn => simp [hn]
  | error_message hn => simp [hn]
  | noise_error code hn =>
    rw [hn]
    simp only [NGX_AGAIN]
    omega
  | written _ _ _ hn => simp [hn]

theorem split_action_ne_again (N : NoiseC S) (w : Endpoint S) : (w.split_action N).1 ≠ NGX_AGAIN := by
  unfold split_action
  dsimp only
  split_ifs <;> simp

theorem Guard.process {N : NoiseC S} {w : Endpoint S} (h : w.Guard)
    (hphase : w.nc.handshake_phase = .process_phase)
    {flow : ControlFlow (Endpoint S) (Int × Endpoint S)} (hstep : ProcessStep N w flow) :
    GuardedFlow flow := by
  have hcalm : w.action N = NOISE_ACTION_WRITE_MESSAGE → w.Calm := by
    intro haction
    refine h.calm ?_
    intro hlast
    simp [action, hlast] at haction
  cases hstep with
  | write_failed haction hlast hmsg hn => exact fun hagain => absurd hagain (write_message_ne_again hmsg)
  | write_new haction hlast hmsg =>
    exact ((hcalm haction).of_writeFrame (write_message_cases hmsg).1).sendOutcome
      (send_action_cases N _ _)
  | write_old haction hlast hbuf => exact (hcalm haction).sendOutcome (send_action_cases N _ _)
  | @read_stopped r haction hsteps hn =>
    intro hagain
    have hread : (w.setLast 0).ReadGuard :=
      ⟨fun heof => (h.eof heof).1, fun hneg => (h.neg hneg).1, fun hmsg => (h.msg hmsg).1,
        h.anchored⟩
    obtain ⟨harmed, hanch, hlast, hphase'⟩ := hsteps.armed hread hagain
    rcases harmed with hcut | harmed
    · exact .inl hcut
    · have hprocess : r.2.nc.handshake_phase = .process_phase := hphase'.trans hphase
      exact .inr ⟨harmed, fun _ => ⟨harmed, hlast⟩, fun _ => ⟨harmed, hlast⟩,
        fun _ => ⟨harmed, hlast⟩, hanch, by simp [hprocess], by simp [hprocess]⟩
  | read_done haction hsteps hn => exact .inr (hsteps.calm hn).1.guard
  | split haction => exact fun hagain => absurd hagain (split_action_ne_again N w)
  | failed =>
    intro hagain
    simp at hagain

theorem Calm.startOutcome {N : NoiseC S} {w : Endpoint S}
    {flow : ControlFlow (Endpoint S) (Int × Endpoint S)} (h : w.Calm)
    (hstart : StartOutcome N w flow) : GuardedFlow flow ∧
      ∀ v, flow = .cont v → v.Calm ∧ v.nc.handshake_phase = .process_phase := by
  cases hstart with
  | failed hframe =>
    refine ⟨?_, by simp⟩
    intro hn
    simp at hn
  | @started v hframe hinit =>
    have hcalm : Calm { v with
        noise := (N.handshakestate_start v.noise).2
        nc := { w.nc with buf := none, handshake_phase := .process_phase, last := 0 } } :=
      ⟨by rw [hframe.c]; exact h.eof, h.neg, h.msg⟩
    refine ⟨.inr hcalm.guard, ?_⟩
    rintro _ hv
    cases hv
    exact ⟨hcalm, rfl⟩

/-- The first message of the server leaves nothing pending once it is complete. -/
theorem Guard.calm_of_negSteps {w : Endpoint S} {r : Int × Endpoint S} (h : w.Guard)
    (hphase : w.nc.handshake_phase = .none_phase)
    (hneg : NegSteps NGX_NSOC_1MSG_NEG_DATA_SIZE w r) (hn : 0 < r.1) : r.2.Calm := by
  have hmsg : r.2.nc.noise_msg = w.nc.noise_msg := hneg.frame.other .noise_msg (by simp)
  refine ⟨?_, ?_, by rw [hmsg]; exact h.none_msg hphase⟩
  · cases hneg with
    | known k _ hr =>
      rcases Nat.eq_zero_or_pos k with rfl | hpos
      · rw [hr, read_part_zero] at hn
        simp at hn
      · rw [hr] at hn ⊢
        exact eof_of_read_part hpos (by omega)
    | again v _ _ _ _ hr =>
      rcases v.read_again_cases with ⟨-, hcode⟩ | ⟨hcode, -⟩
      all_goals simp [hr, hcode] at hn
    | error _ _ _ _ _ hr | mismatch _ _ _ _ _ hr => simp [hr] at hn
    | accepted v _ _ _ _ hr =>
      rw [hr] at hn ⊢
      exact eof_of_read_part (by simp) (by omega)
  · rcases hneg.known_of_nonneg (by omega) with ⟨k, -, -, hk⟩ | ⟨-, hk⟩
    all_goals
      rw [hk]
      rfl

theorem Guard.none {N : NoiseC S} {w : Endpoint S} (h : w.Guard)
    (hphase : w.nc.handshake_phase = .none_phase)
    {flow : ControlFlow (Endpoint S) (Int × Endpoint S)} (hstep : NoneStep N w flow) :
    GuardedFlow flow ∧ ∀ v, flow = .cont v → v.Calm ∧ v.nc.handshake_phase = .process_phase := by
  cases hstep with
  | client hrole hstart => exact (h.none_client hphase hrole).startOutcome hstart
  | @neg_stopped r hrole hneg hn =>
    refine ⟨?_, by simp⟩
    intro hagain
    rcases armed_of_negSteps hneg h.neg_watched hagain with hcut | harmed
    · exact .inl hcut
    · have hlast := hneg.last hagain
      have hmsg : r.2.nc.noise_msg = w.nc.noise_msg := hneg.frame.other .noise_msg (by simp)
      have hsaved : r.2.nc.noise_msg.saved = false := by rw [hmsg]; exact h.none_msg hphase
      have hrole' : r.2.nc.noise_role = .server := hneg.frame.reads.noise_role.trans hrole
      exact .inr ⟨harmed, fun _ => ⟨harmed, hlast⟩, fun _ => ⟨harmed, hlast⟩,
        fun _ => ⟨harmed, hlast⟩, by simp [Anchored, hsaved], fun _ => hsaved, by simp [hrole']⟩
  | @version r q b first_hdr hrole hneg hn hbuf hhdr hversion hreply =>
    refine ⟨?_, by simp⟩
    intro hagain
    have hcalm := h.calm_of_negSteps hphase hneg hn
    obtain ⟨hframe, hcode | ⟨-, htimer, -⟩⟩ := version_error_cases hreply
    · simp [hcode] at hagain
    · have hcalm' : q.2.Calm := by
        refine ⟨hframe.eof.trans hcalm.eof, ?_, ?_⟩
        · rw [hframe.neg_data]
          exact hcalm.neg
        · rw [hframe.noise_msg]
          exact hcalm.msg
      exact .inr ⟨.inr htimer, hcalm'.guard⟩
  | header hrole hneg hn hbuf hhdr hversion hstart =>
    have hcalm := h.calm_of_negSteps hphase hneg hn
    refine Calm.startOutcome ?_ hstart
    exact ⟨hcalm.eof, hcalm.neg, hcalm.msg⟩

/-- One pass keeps the invariant, and suspends only with a timer. -/
theorem Guarded.pass {N : NoiseC S} {w : Endpoint S} (h : w.Guarded)
    {flow : ControlFlow (Endpoint S) (Int × Endpoint S)} (hstep : PassStep N w flow) :
    GuardedFlow flow := by
  rcases h with hcut | h
  · exact guardedFlow_of_cut hcut hstep.extends
  cases hstep with
  | none_done hphase hnone => exact (h.none hphase hnone).1
  | none_process hphase hnone hprocess =>
    obtain ⟨hcalm, hphase'⟩ := (h.none hphase hnone).2 _ rfl
    exact hcalm.guard.process hphase' hprocess
  | process hphase hprocess => exact h.process hphase hprocess
  | spin hphase => exact .inr h

/-- A call of `ngx_nsoc_do_handshake_process` suspends only with a timer. -/
theorem Guarded.do_handshake_process {N : NoiseC S} {fuel : Nat} {w w' : Endpoint S}
    (h : w.Guarded) (hcall : w.do_handshake_process N fuel = ok (NGX_AGAIN, w')) :
    w'.Cut ∨ w'.Armed ∧ w'.Guard := by
  refine loop_invariant Guarded (fun r => r.1 = NGX_AGAIN → r.2.Cut ∨ r.2.Armed ∧ r.2.Guard)
    ?_ ?_ h hcall rfl
  · intro v next hv hbody
    exact hv.pass (do_handshake_process_body_cases hbody)
  · intro v r hv hbody
    exact hv.pass (do_handshake_process_body_cases hbody)

/-- The event core reports an event; the flags say which side is ready. -/
def wake (w : Endpoint S) (read write : Bool) : Endpoint S :=
  (w.setReadReady read).setWriteReady write

/-- A run of handshake steps that all returned `NGX_AGAIN`, from the first call on
the endpoint `start` to the state `w` behind the last one. -/
inductive SuspendedRun (N : NoiseC S) (start : Endpoint S) : Endpoint S → Prop where
  | first {fuel : Nat} {w : Endpoint S}
      (hcall : start.do_handshake_process N fuel = ok (NGX_AGAIN, w)) : SuspendedRun N start w
  | resumed {fuel : Nat} {v w : Endpoint S} {read write : Bool} (hrun : SuspendedRun N start v)
      (hcall : (v.wake read write).do_handshake_process N fuel = ok (NGX_AGAIN, w)) :
      SuspendedRun N start w

theorem Fresh.calm {w : Endpoint S} (h : w.Fresh) : w.Calm := by
  obtain ⟨ctx, buffer_size, role, buffer, hnc⟩ := h.nc
  refine ⟨h.eof, ?_, ?_⟩
  · rw [hnc]
    rfl
  · rw [hnc]
    rfl

theorem Guard.wake {w : Endpoint S} (h : w.Guard) (read write : Bool) : (w.wake read write).Guard :=
  ⟨h.eof, h.neg, h.msg, h.anchored, h.none_msg, fun hphase hrole =>
    ⟨(h.none_client hphase hrole).eof, (h.none_client hphase hrole).neg,
      (h.none_client hphase hrole).msg⟩⟩

/-- Every suspended state of a run is armed and guarded, or has a cut behind it. -/
theorem SuspendedRun.guarded {N : NoiseC S} {start w : Endpoint S} (h : SuspendedRun N start w)
    (hstart : start.Fresh) : w.Cut ∨ w.Armed ∧ w.Guard := by
  induction h with
  | first hcall => exact Guarded.do_handshake_process (.inr hstart.calm.guard) hcall
  | resumed hrun hcall ih =>
    refine Guarded.do_handshake_process ?_ hcall
    rcases ih with hcut | ⟨-, hguard⟩
    · exact .inl (hcut.of_trace rfl)
    · exact .inr (hguard.wake _ _)

/-- As long as the socket delivers every negotiation data field and every noise
message in one piece, a handshake that waits has a timer. -/
theorem armed_of_suspendedRun (N : NoiseC S) {start w : Endpoint S} (hstart : start.Fresh)
    (hrun : SuspendedRun N start w) (hcut : ¬ w.Cut) : w.Armed := by
  rcases hrun.guarded hstart with h | h
  · exact absurd h hcut
  · exact h.1

/-- The first message, in one segment, and the state of a server that has answered
it and waits for the third message. -/
theorem armed_of_first_message :
    ∃ w, SuspendedRun pattern_xx (pattern_server
        [.data 0 ([6] ++ proxy_prologue.header.bytes ++ [0, 32] ++ Pattern.message 0)] false) w ∧
      ¬ w.Cut ∧ w.Armed := by
  have hwait : ∃ w, (pattern_server [.data 0 ([6] ++ proxy_prologue.header.bytes ++ [0, 32] ++
      Pattern.message 0)] false).do_handshake_process pattern_xx 8 = ok (NGX_AGAIN, w) ∧
      ¬ w.Cut := by
    refine ⟨_, rfl, ?_⟩
    decide
  obtain ⟨w, hcall, hcut⟩ := hwait
  refine ⟨w, .first hcall, hcut, ?_⟩
  exact armed_of_suspendedRun pattern_xx (Endpoint.fresh_create _ _ _ _ _ _ _ _) (.first hcall) hcut

/-- Three of the six bytes of the first header, and then silence: the server waits
without a timer. -/
theorem not_armed_of_short_header :
    ¬ ∀ start w : Endpoint Pattern, start.Fresh → SuspendedRun pattern_xx start w → w.Armed := by
  intro h
  have hwait : ∃ w, (pattern_server [.data 0 [6], .data 0 [1, 1]] false).do_handshake_process
      pattern_xx 8 = ok (NGX_AGAIN, w) ∧ ¬ w.Armed := by
    refine ⟨_, rfl, ?_⟩
    decide
  obtain ⟨w, hcall, hnot⟩ := hwait
  exact hnot (h _ w (Endpoint.fresh_create _ _ _ _ _ _ _ _) (.first hcall))

end Endpoint

end ngx_nsoc
