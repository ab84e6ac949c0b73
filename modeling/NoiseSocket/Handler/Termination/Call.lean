import NoiseSocket.Handler.Termination.Start

open Exec Exec.Result

namespace ngx_nsoc

open ngx_noise_protocol

variable {S : Type}

namespace Endpoint

/-- The phase `NGX_NSOC_HANDSHAKE_PROCESS_PHASE` returns unless it receives and
that spins. -/
theorem process_phase_settles (N : NoiseC S) (w : Endpoint S) :
    (w.action N = NOISE_ACTION_READ_MESSAGE ∧ w.ReadSpins) ∧
        Settles (fun fuel => w.process_phase N fuel) div ∨
      ¬ (w.action N = NOISE_ACTION_READ_MESSAGE ∧ w.ReadSpins) ∧
        ∃ x, x ≠ div ∧ Settles (fun fuel => w.process_phase N fuel) x := by
  by_cases hwrite : w.action N = NOISE_ACTION_WRITE_MESSAGE
  · refine .inr ⟨by simp [hwrite], w.write_action N, ?_, ?_⟩
    · unfold write_action
      dsimp only
      split_ifs
      · refine bind_ne_div (write_message_ne_div N w) ?_
        rintro ⟨n, b, v⟩ _
        dsimp only
        split_ifs
        · simp
        · cases b <;> simp
      · rw [bind_ok]
        simp only [ne_eq, not_true, if_false]
        cases w.nc.buf <;> simp
    · exact ⟨0, fun _ _ => if_pos hwrite⟩
  by_cases hread : w.action N = NOISE_ACTION_READ_MESSAGE
  · have hphase : (fun fuel => w.process_phase N fuel) = fun fuel =>
        (w.setLast 0).handshake_start_action_read_message N fuel >>= fun r =>
          if r.1 ≠ NGX_OK then ok (.done (r.1, r.2)) else ok (.cont r.2) := by
      funext fuel
      simp only [process_phase, if_neg hwrite, if_pos hread]
    rw [hphase]
    have hspins : (w.setLast 0).ReadSpins ↔ w.ReadSpins :=
      SameGate.readSpins ⟨rfl, rfl, rfl, rfl, rfl, rfl, rfl⟩
    rcases (w.setLast 0).read_message_settles N with ⟨hspin, hdiv⟩ | ⟨hno, x, hx, hmsg⟩
    · exact .inl ⟨⟨hread, hspins.mp hspin⟩, hdiv.bind_div⟩
    · refine .inr ⟨fun h => hno (hspins.mpr h.2), ?_⟩
      cases x with
      | div => exact absurd rfl hx
      | fault => exact ⟨fault, by simp, hmsg.bind_fault⟩
      | ok r =>
        refine ⟨_, ?_, hmsg.bind (settles_const _)⟩
        split_ifs <;> simp
  · have hrest : ∀ fuel, w.process_phase N fuel =
        if w.action N = NOISE_ACTION_SPLIT then ok (.done (w.split_action N))
        else ok (.done (NGX_ERROR, w)) := by
      intro fuel
      simp only [process_phase, if_neg hwrite, if_neg hread]
    refine .inr ⟨fun h => hread h.1, _, ?_, ⟨0, fun fuel _ => hrest fuel⟩⟩
    split_ifs <;> simp

/-- The handshake is under way and noise-c does not ask for a message to read. -/
structure Sending (N : NoiseC S) (w : Endpoint S) : Prop where
  phase : w.nc.handshake_phase = .process_phase
  last : w.nc.last = 0
  action : N.handshakestate_get_action w.noise ≠ NOISE_ACTION_READ_MESSAGE

/-- Nor for one to write. -/
structure Ending (N : NoiseC S) (w : Endpoint S) : Prop extends Sending N w where
  action_write : N.handshakestate_get_action w.noise ≠ NOISE_ACTION_WRITE_MESSAGE

theorem Sending.action_ne {N : NoiseC S} {w : Endpoint S} (h : Sending N w) :
    w.action N ≠ NOISE_ACTION_READ_MESSAGE := by
  simpa [Endpoint.action, h.last] using h.action

/-- Sending that goes on: noise-c does not ask for a message to read. -/
theorem sending_of_send {N : NoiseC S} {b : Buf} {w v : Endpoint S}
    (hphase : w.nc.handshake_phase = .process_phase) (h : w.send_action N b = .cont v) :
    Sending N v ∧ v.noise = w.noise ∧ v.nc.msg_num = w.nc.msg_num := by
  have hsend := send_action_cases N b w
  rw [h] at hsend
  cases hsend with
  | go_on hframe haction hlast _ _ =>
    refine ⟨⟨?_, hlast, by rw [hframe.noise]; exact haction⟩, hframe.noise, by rw [hframe.nc]⟩
    rw [hframe.nc]
    exact hphase

/-- A pass that goes on leaves nothing to read. -/
theorem ProcessStep.sending {N : NoiseC S} (hN : N.Alternates) {w v : Endpoint S}
    (hphase : w.nc.handshake_phase = .process_phase) (h : ProcessStep N w (.cont v)) :
    Sending N v := by
  generalize hflow : ControlFlow.cont v = flow at h
  cases h with
  | write_failed _ _ _ _ | read_stopped _ _ _ | split _ | failed => cases hflow
  | write_new haction hlast hmsg =>
    refine (sending_of_send ?_ hflow.symm).1
    rw [(write_message_cases hmsg).1.nc]
    exact hphase
  | write_old haction hlast hbuf => exact (sending_of_send hphase hflow.symm).1
  | @read_done r haction hsteps hn =>
    cases hflow
    cases hsteps with
    | gate_ret n u hgate hr => simp [hr, hgate.ret_error] at hn
    | gate_stop n u hgate hneg hr =>
      rw [hr] at hn
      simp only [NGX_OK] at hn
      omega
    | msg_stop n u hgate hge hmsg hlt =>
      simp only [NGX_OK] at hn
      omega
    | rejected n u q b code noise hgate hge hmsg hq hbuf hcall hcode hr => simp [hr] at hn
    | accepted n u q b noise hgate hge hmsg hq hbuf hcall hr =>
      rw [hr]
      refine ⟨?_, rfl, hN.read _ _ _ hcall⟩
      exact (hgate.reads.trans ((reads_setBuf _ _).trans hmsg.frame.reads)).handshake_phase.trans
        hphase

/-- A message that noise-c has written is the last one. The error message is the
only one that is written without noise-c, and another one may follow it. -/
theorem Sending.next {N : NoiseC S} (hN : N.Alternates) {w v : Endpoint S} (hw : Sending N w)
    (h : ProcessStep N w (.cont v)) :
    Ending N v ∨ w.nc.msg_num = NGX_NSOC_2MSG_ERR ∧ Sending N v ∧
      v.nc.msg_num = NGX_NSOC_1MSG := by
  generalize hflow : ControlFlow.cont v = flow at h
  cases h with
  | write_failed _ _ _ _ | read_stopped _ _ _ | split _ | failed => cases hflow
  | @write_new b u haction hlast hmsg =>
    obtain ⟨hframe, hout⟩ := write_message_cases hmsg
    have hu : u.nc.handshake_phase = .process_phase := by
      rw [hframe.nc]
      exact hw.phase
    obtain ⟨hsending, hnoise, hnum⟩ := sending_of_send hu hflow.symm
    cases hout with
    | refused hn => simp at hn
    | noise_error code hn hcode => exact absurd (by simpa using hn.symm) hcode
    | written header message next _ _ hcall =>
      exact .inl ⟨hsending, by rw [hnoise]; exact hN.write _ _ _ hcall⟩
    | error_message _ herr _ _ _ hnum' => exact .inr ⟨herr, hsending, hnum.trans hnum'⟩
  | write_old haction hlast hbuf => simp [hw.last] at hlast
  | read_done haction hsteps hn => exact absurd haction hw.action_ne

theorem body_of_process {N : NoiseC S} {w : Endpoint S}
    (hphase : w.nc.handshake_phase = .process_phase) (fuel : Nat) :
    w.do_handshake_process_body N fuel = w.process_phase N fuel := by
  simp only [do_handshake_process_body, hphase]

/-- One pass in the phase `NGX_NSOC_HANDSHAKE_PROCESS_PHASE`, with what the passes
behind it are known to do. -/
theorem process_loop_settles {N : NoiseC S} {w : Endpoint S}
    (hphase : w.nc.handshake_phase = .process_phase)
    (hspins : ¬ (w.action N = NOISE_ACTION_READ_MESSAGE ∧ w.ReadSpins))
    (hnext : ∀ v, ProcessStep N w (.cont v) →
      ∃ x, x ≠ div ∧ LoopSettles (do_handshake_process_body N) v x) :
    ∃ x, x ≠ div ∧ LoopSettles (do_handshake_process_body N) w x := by
  rcases w.process_phase_settles N with ⟨h, -⟩ | ⟨-, y, hy, hsettles⟩
  · exact absurd h hspins
  have hbody : Settles (fun fuel => w.do_handshake_process_body N fuel) y := by
    simpa only [body_of_process hphase] using hsettles
  cases y with
  | div => exact absurd rfl hy
  | fault => exact ⟨fault, by simp, .of_fault hbody⟩
  | ok flow =>
    have hstep : ProcessStep N w flow := by
      obtain ⟨bound, hbound⟩ := hsettles
      exact process_phase_cases (hbound bound (Nat.le_refl _))
    cases flow with
    | done r => exact ⟨ok r, by simp, .of_done hbody⟩
    | cont v =>
      obtain ⟨x, hx, hloop⟩ := hnext v hstep
      exact ⟨x, hx, .of_cont hbody hloop⟩

theorem Ending.settles {N : NoiseC S} {w : Endpoint S} (h : Ending N w) :
    ∃ x, x ≠ div ∧ LoopSettles (do_handshake_process_body N) w x := by
  refine process_loop_settles h.phase (fun hread => h.action_ne hread.1) ?_
  intro v hstep
  exfalso
  have hwrite : w.action N ≠ NOISE_ACTION_WRITE_MESSAGE := by
    simpa [Endpoint.action, h.last] using h.action_write
  generalize hflow : ControlFlow.cont v = flow at hstep
  cases hstep with
  | write_failed _ _ _ _ | read_stopped _ _ _ | split _ | failed => cases hflow
  | write_new haction _ _ => exact hwrite haction
  | write_old haction _ _ => exact hwrite haction
  | read_done haction _ _ => exact h.action_ne haction

theorem Sending.settles {N : NoiseC S} (hN : N.Alternates) {w : Endpoint S} (h : Sending N w) :
    ∃ x, x ≠ div ∧ LoopSettles (do_handshake_process_body N) w x := by
  refine process_loop_settles h.phase (fun hread => h.action_ne hread.1) ?_
  intro v hstep
  rcases h.next hN hstep with hv | ⟨-, hv, hnum⟩
  · exact hv.settles
  · refine process_loop_settles hv.phase (fun hread => hv.action_ne hread.1) ?_
    intro u hstep'
    rcases hv.next hN hstep' with hu | ⟨herr, -⟩
    · exact hu.settles
    · simp [hnum] at herr

/-- A call whose first pass ends as the phase `NGX_NSOC_HANDSHAKE_PROCESS_PHASE` does
from `v`. -/
theorem process_settles {N : NoiseC S} (hN : N.Alternates) {w v : Endpoint S}
    (hphase : v.nc.handshake_phase = .process_phase)
    (hbody : ∀ {y}, Settles (fun fuel => v.process_phase N fuel) y →
      Settles (fun fuel => w.do_handshake_process_body N fuel) y) :
    (v.action N = NOISE_ACTION_READ_MESSAGE ∧ v.ReadSpins) ∧
        Settles (fun fuel => w.do_handshake_process N fuel) div ∨
      ¬ (v.action N = NOISE_ACTION_READ_MESSAGE ∧ v.ReadSpins) ∧
        ∃ x, x ≠ div ∧ Settles (fun fuel => w.do_handshake_process N fuel) x := by
  rcases v.process_phase_settles N with ⟨hspins, hdiv⟩ | ⟨hno, y, hy, hsettles⟩
  · exact .inl ⟨hspins, (LoopSettles.of_div (hbody hdiv)).settles⟩
  refine .inr ⟨hno, ?_⟩
  cases y with
  | div => exact absurd rfl hy
  | fault => exact ⟨fault, by simp, (LoopSettles.of_fault (hbody hsettles)).settles⟩
  | ok flow =>
    have hstep : ProcessStep N v flow := by
      obtain ⟨bound, hbound⟩ := hsettles
      exact process_phase_cases (hbound bound (Nat.le_refl _))
    cases flow with
    | done r => exact ⟨ok r, by simp, (LoopSettles.of_done (hbody hsettles)).settles⟩
    | cont u =>
      obtain ⟨x, hx, hloop⟩ := (hstep.sending hN hphase).settles hN
      exact ⟨x, hx, (LoopSettles.of_cont (hbody hsettles) hloop).settles⟩

/-- The keys are the same behind a first header, however it came in. -/
theorem startSpins_behind_header {N : NoiseC S} {w : Endpoint S} {r : Int × Endpoint S} {k : Nat}
    (hneg : NegSteps NGX_NSOC_1MSG_NEG_DATA_SIZE w r) (hknown : r.2.nc.neg_data = .known k)
    (hallocs : r.2.env.allocs = w.allocs_left) (heof : r.2.c.read.eof = w.c.read.eof)
    (first_hdr : FirstHdr) :
    StartSpins N { r.2 with prologue := { r.2.prologue with header := first_hdr } } ↔
      StartSpins N (w.behind_header k first_hdr r.2.env.rx) := by
  have hreads := hneg.frame.reads
  have hkeys : SameKeys { r.2 with prologue := { r.2.prologue with header := first_hdr } }
      (w.behind_header k first_hdr r.2.env.rx) := by
    refine ⟨hreads.noise.symm, ?_, hreads.mem.symm, ?_, hreads.noise_role.symm⟩
    · show ({ w.prologue with header := first_hdr } : PrologueData) =
        { r.2.prologue with header := first_hdr }
      rw [hreads.prologue]
    · show w.nc.noise_ctx = r.2.nc.noise_ctx
      simpa [NoiseConnection.settled] using
        (congrArg NoiseConnection.noise_ctx hreads.settled).symm
  have hgate : SameGate
      (setBuf { r.2 with prologue := { r.2.prologue with header := first_hdr } } none)
      ((w.behind_header k first_hdr r.2.env.rx).setBuf none) := by
    refine ⟨hneg.frame.msg_num.symm, hknown.symm, ?_, rfl, rfl, hallocs.symm, heof.symm⟩
    exact (hneg.frame.other .noise_msg (by simp)).symm
  have hsame := init_handshake_same N hkeys
  unfold StartSpins
  rw [hgate.readSpins]
  generalize init_handshake N { r.2 with prologue := { r.2.prologue with header := first_hdr } } = x,
    init_handshake N (w.behind_header k first_hdr r.2.env.rx) = y at hsame
  cases hsame with
  | fault => simp
  | @ok n v v' obs hkeys' _ _ =>
    constructor
    · rintro ⟨u, hu, haction, hspins⟩
      cases hu
      exact ⟨v', rfl, by rw [hkeys'.noise]; exact haction, hspins⟩
    · rintro ⟨u, hu, haction, hspins⟩
      cases hu
      exact ⟨v, rfl, by rw [← hkeys'.noise]; exact haction, hspins⟩

/-- The phase `NGX_NSOC_HANDSHAKE_NONE_PHASE` returns. -/
inductive NoneEnd (N : NoiseC S) (w : Endpoint S) :
    Result (ControlFlow (Endpoint S) (Int × Endpoint S)) → Prop where
  | started {v : Endpoint S} (hphase : v.nc.handshake_phase = .process_phase)
      (hspins : v.action N = NOISE_ACTION_READ_MESSAGE ∧ v.ReadSpins ↔ w.Spins N) :
      NoneEnd N w (ok (.cont v))
  | stopped {x : Result (ControlFlow (Endpoint S) (Int × Endpoint S))} (hdiv : x ≠ div)
      (hcont : ∀ v, x ≠ ok (.cont v)) (hspins : ¬ w.Spins N) : NoneEnd N w x

theorem StartEnd.noneEnd {N : NoiseC S} {w u : Endpoint S}
    {x : Result (ControlFlow (Endpoint S) (Int × Endpoint S))} (h : StartEnd N u x)
    (hspins : u.StartSpins N ↔ w.Spins N) : NoneEnd N w x := by
  cases h with
  | started hphase hiff => exact .started hphase (hiff.trans hspins)
  | stopped hdiv hcont hno => exact .stopped hdiv hcont fun h => hno (hspins.mpr h)

/-- The phase on the side that waits for the first header. -/
theorem none_phase_server (N : NoiseC S) (fuel : Nat) {w : Endpoint S}
    (hrole : w.nc.noise_role = .server) :
    w.none_phase N fuel = (w.read_negotiation fuel NGX_NSOC_1MSG_NEG_DATA_SIZE >>= fun r =>
      if r.1 ≤ 0 then ok (.done (r.1, r.2)) else
      match r.2.nc.buf.bind fun b => FirstHdr.ofBytes b.bytes with
      | none => fault
      | some first_hdr =>
        if first_hdr.version_id ≠ NGX_NSOC_VERSION_ID then
          r.2.version_error N >>= fun q => ok (.done (q.1, q.2))
        else
          start_handshake N { r.2 with prologue := { r.2.prologue with header := first_hdr } }) := by
  unfold none_phase
  split
  next hclient => cases hclient.symm.trans hrole
  next => rfl

/-- The first pass of a handshake goes on into `NGX_NSOC_HANDSHAKE_PROCESS_PHASE`. -/
theorem body_of_none (N : NoiseC S) (fuel : Nat) {w : Endpoint S}
    (hphase : w.nc.handshake_phase = .none_phase) :
    w.do_handshake_process_body N fuel = (w.none_phase N fuel >>= fun step =>
      match step with
      | .done r => ok (.done r)
      | .cont v => v.process_phase N fuel) := by
  unfold do_handshake_process_body
  split
  next => rfl
  next hprocess => cases hprocess.symm.trans hphase
  next hend => cases hend.symm.trans hphase

theorem none_phase_settles (N : NoiseC S) {w : Endpoint S}
    (hphase : w.nc.handshake_phase = .none_phase) :
    ∃ x, Settles (fun fuel => w.none_phase N fuel) x ∧ NoneEnd N w x := by
  rcases hrole : w.nc.noise_role with _ | _
  · refine ⟨w.start_handshake N, ⟨0, fun _ _ => ?_⟩, (start_handshake_end N w).noneEnd ?_⟩
    · simp [none_phase, hrole]
    · simp [Spins, hphase, hrole]
  obtain ⟨r, hread, hneg⟩ := w.read_negotiation_settles NGX_NSOC_1MSG_NEG_DATA_SIZE
  obtain ⟨hstop, hgo⟩ := hneg.header_rx
  simp only [none_phase_server N _ hrole]
  have hspins : w.Spins N ↔ ∃ size bytes rx first_hdr, w.header_rx = some (size, bytes, rx) ∧
      FirstHdr.ofBytes bytes = some first_hdr ∧ first_hdr.version_id = NGX_NSOC_VERSION_ID ∧
      StartSpins N (w.behind_header size first_hdr rx) := by
    simp only [Spins, hphase, hrole]
  by_cases hn : r.1 ≤ 0
  · refine ⟨ok (.done (r.1, r.2)), (hread.bind ⟨0, fun _ _ => if_pos hn⟩),
      .stopped (by simp) (by simp) ?_⟩
    rw [hspins, hstop hn]
    simp
  obtain ⟨k, b, hheader, hbuf, hknown, hallocs, heof⟩ := hgo (by omega)
  rcases hhdr : FirstHdr.ofBytes b.bytes with _ | first_hdr
  · refine ⟨fault, (hread.bind ⟨0, fun _ _ => ?_⟩), .stopped (by simp) (by simp) ?_⟩
    · simp [hn, hbuf, hhdr]
    · rw [hspins, hheader]
      rintro ⟨size, bytes, rx, hdr, heq, hbytes, -⟩
      cases heq
      simp [hhdr] at hbytes
  have hspins' : w.Spins N ↔ first_hdr.version_id = NGX_NSOC_VERSION_ID ∧
      StartSpins N (w.behind_header k first_hdr r.2.env.rx) := by
    rw [hspins, hheader]
    constructor
    · rintro ⟨size, bytes, rx, hdr, heq, hbytes, hversion, hstart⟩
      cases heq
      rw [hhdr] at hbytes
      cases hbytes
      exact ⟨hversion, hstart⟩
    · rintro ⟨hversion, hstart⟩
      exact ⟨k, b.bytes, r.2.env.rx, first_hdr, rfl, hhdr, hversion, hstart⟩
  by_cases hversion : first_hdr.version_id = NGX_NSOC_VERSION_ID
  · refine ⟨_, (hread.bind ⟨0, fun _ _ => ?_⟩),
      (start_handshake_end N { r.2 with prologue :=
        { r.2.prologue with header := first_hdr } }).noneEnd ?_⟩
    · simp [hn, hbuf, hhdr, hversion]
    · rw [hspins', startSpins_behind_header hneg hknown hallocs heof]
      simp [hversion]
  · refine ⟨r.2.version_error N >>= fun q => ok (.done (q.1, q.2)),
      (hread.bind ⟨0, fun _ _ => ?_⟩), .stopped ?_ ?_ ?_⟩
    · simp [hn, hbuf, hhdr, hversion]
    · refine bind_ne_div (version_error_ne_div N r.2) ?_
      intro q _
      simp
    · intro v hv
      rw [bind_eq_ok_iff] at hv
      obtain ⟨q, -, hq⟩ := hv
      cases hq
    · rw [hspins']
      exact fun h => hversion h.1

/-- A call of `ngx_nsoc_do_handshake_process` settles, on divergence exactly where
`Spins` says. -/
theorem do_handshake_process_settles {N : NoiseC S} (hN : N.Alternates) (w : Endpoint S) :
    w.Spins N ∧ Settles (fun fuel => w.do_handshake_process N fuel) div ∨
      ¬ w.Spins N ∧ ∃ x, x ≠ div ∧ Settles (fun fuel => w.do_handshake_process N fuel) x := by
  rcases hphase : w.nc.handshake_phase with _ | _ | _
  · obtain ⟨x, hnone, hend⟩ := none_phase_settles N hphase
    have hbody := fun fuel => body_of_none N fuel hphase
    cases hend with
    | stopped hdiv hcont hno =>
      refine .inr ⟨hno, ?_⟩
      cases x with
      | div => exact absurd rfl hdiv
      | fault => exact ⟨fault, by simp, (LoopSettles.of_fault (by simpa only [hbody] using hnone.bind_fault)).settles⟩
      | ok step =>
        cases step with
        | cont v => exact absurd rfl (hcont v)
        | done r =>
          refine ⟨ok r, by simp, (LoopSettles.of_done ?_).settles⟩
          simp only [hbody]
          exact hnone.bind (settles_const _)
    | @started v hprocess hspins =>
      -- what is left of this pass is the phase from `v`
      rw [← hspins]
      refine process_settles hN hprocess ?_
      intro y hy
      simpa only [hbody] using hnone.bind hy
  · have hspins : w.Spins N ↔ w.action N = NOISE_ACTION_READ_MESSAGE ∧ w.ReadSpins := by
      simp only [Spins, hphase]
    rw [hspins]
    refine process_settles hN hphase ?_
    intro y hy
    simpa only [body_of_process hphase] using hy
  · refine .inl ⟨by simp [Spins, hphase], 0, ?_⟩
    intro fuel _
    refine loop_eq_div (fun v : Endpoint S => v.nc.handshake_phase = .end_phase) ?_ fuel hphase
    intro v hv
    exact ⟨v, by simp [do_handshake_process_body, hv], hv⟩

/-- A call returns unless it is made behind the end of the handshake, or the peer
has closed in front of a noise message or in the middle of its length. -/
theorem do_handshake_process_terminates_iff {N : NoiseC S} (hN : N.Alternates) (w : Endpoint S) :
    Terminates (fun fuel => w.do_handshake_process N fuel) ↔ ¬ w.Spins N := by
  rcases do_handshake_process_settles hN w with ⟨hspins, hdiv⟩ | ⟨hno, x, hx, hsettles⟩
  · rw [hdiv.terminates_iff]
    simp [hspins]
  · rw [hsettles.terminates_iff]
    simp [hno, hx]

/-- A peer that closes in the middle of the first header does not hold the server. -/
theorem terminates_of_short_header :
    Terminates (fun fuel =>
      (pattern_server [.data 0 [6], .data 0 [1, 1]] true).do_handshake_process pattern_xx fuel) := by
  rw [do_handshake_process_terminates_iff alternates_pattern_xx]
  rintro ⟨size, bytes, rx, first_hdr, hheader, -⟩
  cases hheader

/-- The server has received the first header, and the peer closes in front of the
noise message. -/
theorem not_terminates_behind_first_header :
    ¬ ∀ w : Endpoint Pattern, w.Fresh →
      Terminates (fun fuel => w.do_handshake_process pattern_xx fuel) := by
  intro h
  have hspins : (pattern_server [.data 0 ([6] ++ proxy_prologue.header.bytes)] true).Spins
      pattern_xx := by
    refine ⟨6, proxy_prologue.header.bytes, ⟨[], true⟩, proxy_prologue.header, by decide, by decide,
      by decide, ?_⟩
    exact ⟨_, rfl, rfl, ⟨[], true⟩, by decide, by decide⟩
  rcases do_handshake_process_settles alternates_pattern_xx
    (pattern_server [.data 0 ([6] ++ proxy_prologue.header.bytes)] true) with ⟨-, hdiv⟩ | ⟨hno, -⟩
  · exact hdiv.terminates_iff.mp (h _ (Endpoint.fresh_create _ _ _ _ _ _ _ _)) rfl
  · exact hno hspins

end Endpoint

end ngx_nsoc
