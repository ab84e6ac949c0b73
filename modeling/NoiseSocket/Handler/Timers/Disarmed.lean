import NoiseSocket.Handler.Outcome.Client
import NoiseSocket.Handler.Timers.Run

open Exec Exec.Result

namespace ngx_nsoc

variable {S : Type}

namespace Endpoint

/-- The next thing to be done is to receive from the peer. -/
def ToRead (N : NoiseC S) (w : Endpoint S) : Prop :=
  (w.nc.handshake_phase = .none_phase ∧ w.nc.noise_role = .server) ∨
    (w.nc.handshake_phase = .process_phase ∧ w.action N = NOISE_ACTION_READ_MESSAGE)

/-- The timer of the read event is armed for receiving only. The client has the timer of the write event
armed for everything else only. -/
structure Tidy (N : NoiseC S) (w : Endpoint S) : Prop where
  handshaked : w.nc.handshaked = false
  read : w.c.read.timer_set = true → w.ToRead N
  write : w.nc.noise_role = .client → w.c.write.timer_set = true →
    w.nc.handshake_phase = .process_phase ∧ w.action N ≠ NOISE_ACTION_READ_MESSAGE

/-- What a pass leaves behind. -/
def TidyFlow (N : NoiseC S) : ControlFlow (Endpoint S) (Int × Endpoint S) → Prop
  | .cont w => w.Tidy N
  | .done r => (r.1 = NGX_AGAIN → r.2.Tidy N) ∧ (r.2.nc.handshaked = true → r.2.c.read.timer_set = false)

theorem disarmed_of_fill_buf {part : Part} {b : Buf} {w : Endpoint S} (hn : 0 < (w.fill_buf part b).1) :
    (w.fill_buf part b).2.c.read.timer_set = false := by
  unfold fill_buf at hn ⊢
  dsimp only at hn ⊢
  split_ifs at hn ⊢ with hroom heof hrecv
  · simp at hn
  · simp at hn
  · rfl
  · exact absurd (Int.le_of_lt hn) hrecv

theorem disarmed_of_read_handshake_data {part : Part} {size : Nat} {w : Endpoint S}
    (hn : 0 < (w.read_handshake_data part size).1) :
    (w.read_handshake_data part size).2.c.read.timer_set = false := by
  unfold read_handshake_data at hn ⊢
  split at hn
  · exact disarmed_of_fill_buf hn
  · dsimp only at hn ⊢
    split_ifs at hn ⊢
    · exact disarmed_of_fill_buf hn
    · simp at hn

/-- A part with bytes that has been received disarms the read event. -/
theorem disarmed_of_read_part {part : Part} {size : Nat} {w : Endpoint S} (hpos : 0 < size)
    (hn : 0 ≤ (w.read_part part size).1) : (w.read_part part size).2.c.read.timer_set = false := by
  rcases hdata : w.read_handshake_data part size with ⟨n, v⟩
  have heq : w.read_part part size =
      if 0 ≤ n then v.read_finish n size else if n = NGX_AGAIN then v.read_again else (n, v) := by
    simp [read_part, Nat.ne_of_gt hpos, hdata]
  rw [heq] at hn ⊢
  by_cases hread : 0 ≤ n
  · rw [if_pos hread] at hn ⊢
    by_cases hlt : n < size
    · rcases read_finish_of_lt v hlt with ⟨-, hcode⟩ | ⟨hcode, -⟩
      all_goals simp [hcode] at hn
    · rw [read_finish_of_le (by omega)]
      have hgot : 0 < (w.read_handshake_data part size).1 := by
        rw [hdata]
        omega
      have hdisarmed := disarmed_of_read_handshake_data hgot
      rwa [hdata] at hdisarmed
  · rw [if_neg hread] at hn
    split_ifs at hn with hagain
    · rcases v.read_again_cases with ⟨-, hcode⟩ | ⟨hcode, -⟩
      all_goals simp [hcode] at hn
    · exact absurd hn hread

/-- The first message of a server. -/
theorem disarmed_of_negSteps {true_len : Nat} {w : Endpoint S} {r : Int × Endpoint S}
    (h : NegSteps true_len w r) (hn : 0 < r.1) : r.2.c.read.timer_set = false := by
  have hread : ∀ {v : Endpoint S} {size : Nat}, 0 < (v.read_part (.neg_data size) size).1 →
      (v.read_part (.neg_data size) size).2.c.read.timer_set = false := by
    intro v size hsize
    rcases Nat.eq_zero_or_pos size with rfl | hpos
    · simp [read_part_zero] at hsize
    · exact disarmed_of_read_part hpos (Int.le_of_lt hsize)
  cases h with
  | known size hsize hr =>
    rw [hr] at hn ⊢
    exact hread hn
  | again v _ _ _ _ hr =>
    rcases v.read_again_cases with ⟨-, hcode⟩ | ⟨hcode, -⟩
    all_goals simp [hr, hcode] at hn
  | error _ _ _ _ _ hr | mismatch _ _ _ _ _ hr => simp [hr] at hn
  | accepted v _ _ _ _ hr =>
    rw [hr] at hn ⊢
    exact hread hn

/-- A noise message, which has a buffer. -/
theorem disarmed_of_msgSteps {w : Endpoint S} {r : Int × Endpoint S} {b : Buf} (h : MsgSteps w r)
    (hn : 0 ≤ r.1) (hnone : w.nc.buf = none) (hbuf : r.2.nc.buf = some b) :
    r.2.c.read.timer_set = false := by
  cases h with
  | known size hsize hr =>
    rcases Nat.eq_zero_or_pos size with rfl | hpos
    · rw [hr, read_part_zero, hnone] at hbuf
      cases hbuf
    · rw [hr] at hn ⊢
      exact disarmed_of_read_part hpos hn
  | again v _ _ _ _ hr =>
    rcases v.read_again_cases with ⟨-, hcode⟩ | ⟨hcode, -⟩
    all_goals simp [hr, hcode] at hn
  | error _ _ _ _ _ hr => simp [hr] at hn
  | accepted v size _ hlen _ _ hr =>
    rcases Nat.eq_zero_or_pos size with rfl | hpos
    · have hkept : v.nc.buf = w.nc.buf := hlen.frame.buf
      rw [hr, read_part_zero, hkept, hnone] at hbuf
      cases hbuf
    · rw [hr] at hn ⊢
      exact disarmed_of_read_part hpos hn

theorem disarmed_of_messageSteps {N : NoiseC S} {w : Endpoint S} {r : Int × Endpoint S}
    (h : MessageSteps N w r) (hn : r.1 = NGX_OK) : r.2.c.read.timer_set = false := by
  cases h with
  | gate_ret n v hgate hr => simp [hr, hgate.ret_error] at hn
  | gate_stop n v hgate hneg hr =>
    rw [hr] at hn
    simp only [NGX_OK] at hn
    omega
  | msg_stop n v hgate hge hmsg hlt =>
    simp only [NGX_OK] at hn
    omega
  | rejected n v q b code noise hgate hge hmsg hq hbuf hcall hcode hr => simp [hr] at hn
  | accepted n v q b noise hgate hge hmsg hq hbuf hcall hr =>
    have hdisarmed : q.2.c.read.timer_set = false := disarmed_of_msgSteps hmsg hq rfl hbuf
    rw [hr]
    exact hdisarmed

/-- Receiving a message does not touch the write event, and it can be resumed. -/
theorem write_timer_of_messageSteps {N : NoiseC S} {w : Endpoint S} {r : Int × Endpoint S}
    (h : MessageSteps N w r) : r.2.c.write.timer_set = w.c.write.timer_set ∧
      (r.1 = NGX_AGAIN → r.2.nc.last = NOISE_ACTION_READ_MESSAGE) := by
  cases h with
  | gate_ret n v hgate hr =>
    rw [hr]
    refine ⟨hgate.reads.write_timer, fun hagain => ?_⟩
    rw [hgate.ret_error] at hagain
    cases hagain
  | gate_stop n v hgate hneg hr =>
    rw [hr]
    exact ⟨hgate.reads.write_timer, fun hagain => hgate.last hagain⟩
  | msg_stop n v hgate hge hmsg hlt =>
    have hreads := (reads_setBuf v none).trans hmsg.frame.reads
    exact ⟨(hgate.reads.trans hreads).write_timer, hmsg.last⟩
  | rejected n v q b code noise hgate hge hmsg hq hbuf hcall hcode hr =>
    have hreads := (reads_setBuf v none).trans hmsg.frame.reads
    rw [hr]
    refine ⟨(hgate.reads.trans hreads).write_timer, fun hagain => ?_⟩
    cases hagain
  | accepted n v q b noise hgate hge hmsg hq hbuf hcall hr =>
    have hreads := (reads_setBuf v none).trans hmsg.frame.reads
    rw [hr]
    refine ⟨(hgate.reads.trans hreads).write_timer, fun hagain => ?_⟩
    cases hagain

theorem action_of_toRead {N : NoiseC S} {w : Endpoint S} (h : w.ToRead N)
    (hphase : w.nc.handshake_phase = .process_phase) : w.action N = NOISE_ACTION_READ_MESSAGE := by
  obtain ⟨hnone, -⟩ | ⟨-, haction⟩ := h
  · rw [hphase] at hnone
    cases hnone
  · exact haction

/-- The sending of a message. -/
theorem tidy_send_action {N : NoiseC S} {w : Endpoint S} (b : Buf) (hnot : w.nc.handshaked = false)
    (hphase : w.nc.handshake_phase = .process_phase) : TidyFlow N (w.send_action N b) := by
  unfold send_action
  dsimp only
  rcases hsend : (w.setLast 0).ngx_send (b.bytes.drop b.pos) with ⟨n, v⟩
  obtain ⟨hv, -⟩ := (w.setLast 0).ngx_send_frame (b.bytes.drop b.pos)
  rw [hsend] at hv
  dsimp only at hv ⊢
  rw [hv]
  split_ifs with hshort haction hrc
  · rcases write_again_cases _ b with ⟨-, heq⟩ | heq
    · rw [heq]
      refine ⟨by simp, fun hdone => absurd hdone ?_⟩
      exact Bool.eq_false_iff.mp hnot
    · rw [heq]
      refine ⟨fun _ => ⟨hnot, ?_, fun _ _ => ⟨hphase, ?_⟩⟩, fun _ => rfl⟩
      · rintro ⟨⟩
      · simp [action, setLast]
  · refine ⟨by simp, fun hdone => absurd hdone ?_⟩
    exact Bool.eq_false_iff.mp hnot
  · refine ⟨fun _ => ⟨hnot, fun _ => .inr ⟨hphase, haction⟩, ?_⟩, fun hdone => absurd hdone ?_⟩
    · rintro - ⟨⟩
    · exact Bool.eq_false_iff.mp hnot
  · refine ⟨hnot, ?_, fun _ _ => ⟨hphase, haction⟩⟩
    rintro ⟨⟩

theorem Tidy.of_idle {N : NoiseC S} {w : Endpoint S} (hnot : w.nc.handshaked = false)
    (hread : w.c.read.timer_set = false)
    (hwrite : w.nc.noise_role = .client → w.c.write.timer_set = false) : w.Tidy N := by
  refine ⟨hnot, ?_, ?_⟩
  · rw [hread]
    rintro ⟨⟩
  · intro hrole
    rw [hwrite hrole]
    rintro ⟨⟩

theorem ProcessStep.tidy {N : NoiseC S} {w : Endpoint S} (hw : w.Tidy N)
    (hphase : w.nc.handshake_phase = .process_phase)
    {flow : ControlFlow (Endpoint S) (Int × Endpoint S)} (hstep : ProcessStep N w flow) :
    TidyFlow N flow := by
  -- Where nothing is to be received, the read event has no timer.
  have hidle : w.action N ≠ NOISE_ACTION_READ_MESSAGE → w.c.read.timer_set = false := by
    intro haction
    by_contra harmed
    exact haction (action_of_toRead (hw.read (by simpa using harmed)) hphase)
  cases hstep with
  | write_failed haction hlast hmsg hn =>
    obtain ⟨hframe, -⟩ := write_message_cases hmsg
    refine ⟨fun hagain => absurd hagain (write_message_ne_again hmsg), fun hdone => ?_⟩
    rw [hframe.nc] at hdone
    exact absurd hdone (Bool.eq_false_iff.mp hw.handshaked)
  | @write_new b v haction hlast hmsg =>
    obtain ⟨hframe, -⟩ := write_message_cases hmsg
    refine tidy_send_action b ?_ ?_
    · rw [hframe.nc]
      exact hw.handshaked
    · rw [hframe.nc]
      exact hphase
  | @write_old b haction hlast hbuf => exact tidy_send_action b hw.handshaked hphase
  | @read_stopped r haction hsteps hn =>
    have hnot : r.2.nc.handshaked = false := hsteps.keeps.handshaked.trans hw.handshaked
    obtain ⟨hwrite, hlast⟩ := write_timer_of_messageSteps hsteps
    refine ⟨fun hagain => ⟨hnot, fun _ => .inr ⟨hsteps.keeps.handshake_phase.trans hphase, ?_⟩, ?_⟩,
      fun hdone => absurd hdone (Bool.eq_false_iff.mp hnot)⟩
    · simp [action, hlast hagain]
    · intro hrole harmed
      rw [hwrite] at harmed
      exact absurd haction (hw.write (hsteps.stays.role.symm.trans hrole) harmed).2
  | @read_done r haction hsteps hn =>
    obtain ⟨hwrite, -⟩ := write_timer_of_messageSteps hsteps
    refine .of_idle (hsteps.keeps.handshaked.trans hw.handshaked) (disarmed_of_messageSteps hsteps hn) ?_
    intro hrole
    by_contra harmed
    rw [hwrite] at harmed
    have harmed : w.c.write.timer_set = true := Bool.not_eq_false _ ▸ harmed
    exact absurd haction (hw.write (hsteps.stays.role.symm.trans hrole) harmed).2
  | split haction =>
    have hread := hidle (by rw [haction]; simp)
    unfold split_action
    dsimp only
    split_ifs
    all_goals exact ⟨by simp, fun _ => hread⟩
  | failed => exact ⟨by simp, fun hdone => absurd hdone (Bool.eq_false_iff.mp hw.handshaked)⟩

theorem StartOutcome.tidy {N : NoiseC S} {w : Endpoint S} (hnot : w.nc.handshaked = false)
    (hread : w.c.read.timer_set = false)
    (hwrite : w.nc.noise_role = .client → w.c.write.timer_set = false)
    {flow : ControlFlow (Endpoint S) (Int × Endpoint S)} (hstart : StartOutcome N w flow) :
    TidyFlow N flow ∧ ∀ v, flow = .cont v → v.nc.handshake_phase = .process_phase := by
  cases hstart with
  | @failed v hframe =>
    have hnot' : (v.setBuf none).nc.handshaked = false := by
      rw [← hnot, ← hframe.nc]
      rfl
    refine ⟨⟨by simp, fun hdone => absurd hdone (Bool.eq_false_iff.mp hnot')⟩, ?_⟩
    rintro _ ⟨⟩
  | @started v hframe hinit =>
    refine ⟨.of_idle hnot ?_ ?_, ?_⟩
    · dsimp only
      rw [hframe.c]
      exact hread
    · intro hrole
      dsimp only
      rw [hframe.c]
      exact hwrite hrole
    · rintro _ ⟨⟩
      rfl

theorem NoneStep.tidy {N : NoiseC S} {w : Endpoint S} (hw : w.Tidy N)
    (hphase : w.nc.handshake_phase = .none_phase)
    {flow : ControlFlow (Endpoint S) (Int × Endpoint S)} (hstep : NoneStep N w flow) :
    TidyFlow N flow ∧ ∀ v, flow = .cont v → v.nc.handshake_phase = .process_phase := by
  cases hstep with
  | client hrole hstart =>
    refine StartOutcome.tidy hw.handshaked ?_ ?_ hstart
    · by_contra harmed
      obtain ⟨-, hserver⟩ | ⟨hprocess, -⟩ := hw.read (by simpa using harmed)
      · rw [hrole] at hserver
        cases hserver
      · rw [hphase] at hprocess
        cases hprocess
    · intro _
      by_contra harmed
      have hprocess := (hw.write hrole (by simpa using harmed)).1
      rw [hphase] at hprocess
      cases hprocess
  | @neg_stopped r hrole hneg hn =>
    have hreads := hneg.frame.reads
    have hnot : r.2.nc.handshaked = false := hreads.handshaked.trans hw.handshaked
    have hserver : r.2.nc.noise_role = .server := hreads.noise_role.trans hrole
    refine ⟨⟨fun _ => ⟨hnot, fun _ => .inl ⟨hreads.handshake_phase.trans hphase, hserver⟩, ?_⟩,
      fun hdone => absurd hdone (Bool.eq_false_iff.mp hnot)⟩, ?_⟩
    · intro hclient
      rw [hserver] at hclient
      cases hclient
    · rintro _ ⟨⟩
  | @version r q b first_hdr hrole hneg hn hbuf hhdr hversion hreply =>
    have hreads := hneg.frame.reads
    obtain ⟨hframe, -⟩ := version_error_cases hreply
    have hsettled : q.2.nc.settled = w.nc.settled := hframe.settled.trans hreads.settled
    have hnot : q.2.nc.handshaked = false := by
      rw [← hw.handshaked]
      simpa [NoiseConnection.settled] using congrArg NoiseConnection.handshaked hsettled
    have hserver : q.2.nc.noise_role = .server := by
      rw [← hrole]
      simpa [NoiseConnection.settled] using congrArg NoiseConnection.noise_role hsettled
    have hnone : q.2.nc.handshake_phase = .none_phase := by
      rw [← hphase]
      simpa [NoiseConnection.settled] using congrArg NoiseConnection.handshake_phase hsettled
    refine ⟨⟨fun _ => ⟨hnot, fun _ => .inl ⟨hnone, hserver⟩, ?_⟩,
      fun hdone => absurd hdone (Bool.eq_false_iff.mp hnot)⟩, ?_⟩
    · intro hclient
      rw [hserver] at hclient
      cases hclient
    · rintro _ ⟨⟩
  | @header r b first_hdr flow hrole hneg hn hbuf hhdr hversion hstart =>
    have hreads := hneg.frame.reads
    refine StartOutcome.tidy ?_ ?_ ?_ hstart
    · exact hreads.handshaked.trans hw.handshaked
    · exact disarmed_of_negSteps hneg hn
    · intro hclient
      have hserver : r.2.nc.noise_role = .server := hreads.noise_role.trans hrole
      rw [hserver] at hclient
      cases hclient

theorem PassStep.tidy {N : NoiseC S} {w : Endpoint S} (hw : w.Tidy N)
    {flow : ControlFlow (Endpoint S) (Int × Endpoint S)} (hstep : PassStep N w flow) :
    TidyFlow N flow := by
  cases hstep with
  | none_done hnone hstep => exact (hstep.tidy hw hnone).1
  | none_process hnone hstep hprocess =>
    obtain ⟨htidy, hprocessing⟩ := hstep.tidy hw hnone
    exact hprocess.tidy htidy (hprocessing _ rfl)
  | process hprocessing hstep => exact hstep.tidy hw hprocessing
  | spin _ => exact hw

theorem do_handshake_process_tidy {N : NoiseC S} {fuel : Nat} {w : Endpoint S} {r : Int × Endpoint S}
    (hw : w.Tidy N) (hcall : w.do_handshake_process N fuel = ok r) :
    (r.1 = NGX_AGAIN → r.2.Tidy N) ∧ (r.2.nc.handshaked = true → r.2.c.read.timer_set = false) := by
  refine loop_invariant (fun w => w.Tidy N) (fun r => TidyFlow N (.done r)) ?_ ?_ hw hcall
  · intro v next hv hbody
    exact (do_handshake_process_body_cases hbody).tidy hv
  · intro v r hv hbody
    exact (do_handshake_process_body_cases hbody).tidy hv

theorem Tidy.wake {N : NoiseC S} {w : Endpoint S} (h : w.Tidy N) (read write : Bool) :
    (w.wake read write).Tidy N := ⟨h.handshaked, h.read, h.write⟩

theorem Fresh.tidy {N : NoiseC S} {w : Endpoint S} (h : w.Fresh) (hread : w.c.read.timer_set = false)
    (hwrite : w.c.write.timer_set = false) : w.Tidy N := by
  obtain ⟨ctx, buffer_size, role, buffer, hnc⟩ := h.nc
  refine .of_idle ?_ hread fun _ => hwrite
  rw [hnc]
  rfl

theorem SuspendedRun.tidy {N : NoiseC S} {start w : Endpoint S} (h : SuspendedRun N start w)
    (hstart : start.Tidy N) : w.Tidy N := by
  induction h with
  | first hcall => exact (do_handshake_process_tidy hstart hcall).1 rfl
  | resumed _ hcall ih => exact (do_handshake_process_tidy (ih.wake _ _) hcall).1 rfl

/-- The states in which the handshake of a connection is called. -/
inductive Called (N : NoiseC S) (start : Endpoint S) : Endpoint S → Prop where
  | first : Called N start start
  | resumed {w : Endpoint S} (hrun : SuspendedRun N start w) (read write : Bool) :
      Called N start (w.wake read write)

/-- The handshake leaves no timer behind that the session does not wait for. As long as it goes on, the read
event is armed for receiving only, and at a client never beside the write event; and when it has been
completed, in whatever way its calls were suspended, the read event is not armed any more. -/
theorem disarmed_of_called (N : NoiseC S) {start : Endpoint S} (hstart : start.Fresh)
    (hread : start.c.read.timer_set = false) (hwrite : start.c.write.timer_set = false) :
    (∀ w, SuspendedRun N start w → (w.c.read.timer_set = true → w.ToRead N) ∧
      (w.nc.noise_role = .client → ¬ (w.c.read.timer_set = true ∧ w.c.write.timer_set = true))) ∧
    ∀ w, Called N start w → ∀ fuel n w', w.do_handshake_process N fuel = ok (n, w') →
      w'.nc.handshaked = true → w'.c.read.timer_set = false := by
  have htidy : start.Tidy N := hstart.tidy hread hwrite
  constructor
  · intro w hrun
    have hw := hrun.tidy htidy
    refine ⟨hw.read, ?_⟩
    rintro hclient ⟨hreading, hwriting⟩
    obtain ⟨hprocess, haction⟩ := hw.write hclient hwriting
    exact haction (action_of_toRead (hw.read hreading) hprocess)
  · intro w hcalled fuel n w' hcall hdone
    have hw : w.Tidy N := by
      cases hcalled with
      | first => exact htidy
      | resumed hrun read write => exact (hrun.tidy htidy).wake read write
    exact (do_handshake_process_tidy hw hcall).2 hdone

/-- A server that has waited for the third message. -/
theorem disarmed_of_third_message :
    ∃ w w', SuspendedRun pattern_xx (pattern_server
        [.data 0 ([6] ++ proxy_prologue.header.bytes ++ [0, 32] ++ Pattern.message 0),
          .data 0 ([0, 0, 64] ++ Pattern.message 2)] false) w ∧ w.c.read.timer_set = true ∧
      (w.wake true true).do_handshake_process pattern_xx 8 = ok (NGX_OK, w') ∧
      w'.c.read.timer_set = false := by
  have hrun : ∃ w, (pattern_server
      [.data 0 ([6] ++ proxy_prologue.header.bytes ++ [0, 32] ++ Pattern.message 0),
        .data 0 ([0, 0, 64] ++ Pattern.message 2)] false).do_handshake_process pattern_xx 8 =
        ok (NGX_AGAIN, w) ∧ w.c.read.timer_set = true ∧
      ∃ w', (w.wake true true).do_handshake_process pattern_xx 8 = ok (NGX_OK, w') ∧
        w'.nc.handshaked = true := by
    exact ⟨_, rfl, rfl, _, rfl, rfl⟩
  obtain ⟨w, hfirst, harmed, w', hcall, hdone⟩ := hrun
  refine ⟨w, w', .first hfirst, harmed, hcall, ?_⟩
  exact (disarmed_of_called pattern_xx (Endpoint.fresh_create _ _ _ _ _ _ _ _) rfl rfl).2 _
    (.resumed (.first hfirst) true true) _ _ _ hcall hdone

end Endpoint

end ngx_nsoc
