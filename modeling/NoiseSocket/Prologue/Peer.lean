import NoiseSocket.Prologue.Openings

open Exec Exec.Result

namespace ngx_nsoc

variable {S T : Type}

namespace Endpoint

/-- A client has passed the prologue of its configuration to noise-c. -/
structure ClientCall (N : NoiseC S) (earlier : List Obs) (bytes : List UInt8) (w : Endpoint S) :
    Prop where
  call : InitCall N w earlier bytes
  role : w.nc.noise_role = .client
  prologue : w.prologue = proxy_prologue

/-- A client that has sent the starts of messages, and nothing before its prologue was set. -/
structure Spoken (N : NoiseC S) (w : Endpoint S) : Prop where
  role : w.nc.noise_role = .client
  prologue : w.prologue = proxy_prologue
  handed : Handed (fun earlier bytes => ∃ v, ClientCall N earlier bytes v) w.trace
  sent : Openings w.env.tx
  silent : w.nc.handshake_phase = .none_phase → w.env.tx = []
  installed : w.nc.handshake_phase ≠ .none_phase → .set_prologue proxy_prologue.bytes ∈ w.trace

/-- The message that a client will offer to the socket again. -/
def Pending (w : Endpoint S) : Prop :=
  w.nc.last = NOISE_ACTION_WRITE_MESSAGE → ∀ b, w.nc.buf = some b → b.pos = 0 ∧ Opening b.bytes

/-- How a pass leaves a client. -/
def SpokenFlow (N : NoiseC S) : ControlFlow (Endpoint S) (Int × Endpoint S) → Prop
  | .cont w => Spoken N w ∧ w.Pending
  | .done (n, w) => Spoken N w ∧ (n = NGX_AGAIN → w.Pending)

/-- Something has been sent, or nothing, behind the first phase. -/
theorem Spoken.sends {N : NoiseC S} {w v : Endpoint S} (h : Spoken N w)
    (hphase : w.nc.handshake_phase ≠ .none_phase) (hquiet : Quiet w v) {part : List UInt8}
    (hpart : part = [] ∨ Opening part) (htx : v.env.tx = w.env.tx ++ part) : Spoken N v := by
  refine ⟨hquiet.role.trans h.role, hquiet.prologue.trans h.prologue, hquiet.handed h.handed, ?_,
    fun hnone => absurd hnone (hquiet.phase hphase), fun _ => ?_⟩
  · rw [htx]
    exact h.sent.append hpart
  · obtain ⟨obs, htrace, -⟩ := hquiet.trace
    rw [htrace]
    exact List.mem_append_right _ (h.installed hphase)

theorem Spoken.keeps {N : NoiseC S} {w v : Endpoint S} (h : Spoken N w)
    (hphase : w.nc.handshake_phase ≠ .none_phase) (hquiet : Quiet w v)
    (htx : v.env.tx = w.env.tx) : Spoken N v :=
  h.sends hphase hquiet (.inl rfl) (htx.trans (List.append_nil _).symm)

/-- The message `b` is offered to the socket. -/
theorem Spoken.send_action {N : NoiseC S} {b : Buf} {w : Endpoint S} (h : Spoken N w)
    (hphase : w.nc.handshake_phase ≠ .none_phase) (hb : b.pos = 0 ∧ Opening b.bytes) :
    SpokenFlow N (w.send_action N b) := by
  obtain ⟨part, hpart, htx⟩ := tx_send_action N b w
  have hopening : part = [] ∨ Opening part := by
    by_cases hnil : part = []
    · exact .inl hnil
    · rw [hb.1, List.drop_zero] at hpart
      exact .inr (hb.2.of_front hpart hnil)
  have hout := send_action_cases N b w
  have hspoken := h.sends hphase hout.quiet hopening htx
  have hidle : ∀ {v : Endpoint S}, v.nc.last = 0 → v.Pending := by
    intro v hlast hwrite
    rw [hlast] at hwrite
    cases hwrite
  generalize w.send_action N b = flow at hout hspoken
  cases hout with
  | refused _ _ => exact ⟨hspoken, by simp⟩
  | blocked _ _ _ hbuf _ =>
    refine ⟨hspoken, fun _ _ b' hb' => ?_⟩
    rw [hbuf] at hb'
    cases hb'
    exact hb
  | wait _ _ hlast _ _ _ => exact ⟨hspoken, fun _ => hidle hlast⟩
  | go_on _ _ hlast _ _ => exact ⟨hspoken, hidle hlast⟩

theorem tx_of_messageSteps {N : NoiseC S} {w : Endpoint S} {r : Int × Endpoint S}
    (h : MessageSteps N w r) : r.2.env.tx = w.env.tx := by
  cases h with
  | gate_ret n v hgate hr | gate_stop n v hgate hn hr =>
    rw [hr]
    exact hgate.reads.tx
  | msg_stop n v hgate hn hmsg hr => exact hmsg.frame.reads.tx.trans hgate.reads.tx
  | rejected n v q b code noise hgate hn hmsg hq hbuf hcall hcode hr =>
    rw [hr]
    exact hmsg.frame.reads.tx.trans hgate.reads.tx
  | accepted n v q b noise hgate hn hmsg hq hbuf hcall hr =>
    rw [hr]
    exact hmsg.frame.reads.tx.trans hgate.reads.tx

/-- Behind a read there is nothing to be sent again. -/
theorem pending_of_messageSteps {N : NoiseC S} {w : Endpoint S} {r : Int × Endpoint S}
    (h : MessageSteps N w r) (hn : r.1 = NGX_AGAIN ∨ r.1 = NGX_OK) : r.2.Pending := by
  have hread : ∀ {v : Endpoint S}, v.nc.last = NOISE_ACTION_READ_MESSAGE → v.Pending := by
    intro v hlast hwrite
    rw [hlast] at hwrite
    cases hwrite
  cases h with
  | gate_ret n v hgate hr =>
    rw [hr, hgate.ret_error] at hn
    simp at hn
  | gate_stop n v hgate hneg hr =>
    rw [hr] at hn ⊢
    simp only at hn
    obtain hagain | hok := hn
    · exact hread (hgate.last hagain)
    · simp only [hok] at hneg
      exact absurd hneg (by decide)
  | msg_stop n v hgate _ hmsg hneg =>
    obtain hagain | hok := hn
    · exact hread (hmsg.last hagain)
    · rw [hok] at hneg
      exact absurd hneg (by decide)
  | rejected n v q b code noise hgate _ hmsg hq hbuf hcall hcode hr =>
    rw [hr] at hn
    simp at hn
  | accepted n v q b noise hgate _ hmsg hq hbuf hcall hr =>
    rw [hr]
    intro hwrite
    cases hwrite

theorem tx_of_write {N : NoiseC S} {w v : Endpoint S} {n : Int} {b : Option Buf}
    (h : w.handshake_start_action_write_message N = ok (n, b, v)) : v.env.tx = w.env.tx :=
  (congrArg Env.tx (write_message_cases h).1.env : _)

theorem split_action_env (N : NoiseC S) (w : Endpoint S) :
    (w.split_action N).2.env = w.env ∧ (w.split_action N).1 ≠ NGX_AGAIN := by
  unfold split_action
  dsimp only
  split_ifs <;> simp

/-- The phase `NGX_NSOC_HANDSHAKE_PROCESS_PHASE` of a client. -/
theorem Spoken.process {N : NoiseC S} {w : Endpoint S} (h : Spoken N w) (hpending : w.Pending)
    (hphase : w.nc.handshake_phase ≠ .none_phase)
    {flow : ControlFlow (Endpoint S) (Int × Endpoint S)} (hstep : ProcessStep N w flow) :
    SpokenFlow N flow := by
  have hquiet := hstep.quiet
  cases hstep with
  | @write_failed n b v _ hlast hmsg _ =>
    refine ⟨h.keeps hphase hquiet (tx_of_write hmsg), fun _ hwrite => ?_⟩
    rw [(write_message_cases hmsg).1.nc, hlast] at hwrite
    cases hwrite
  | write_new _ _ hmsg =>
    have hwritten := h.keeps hphase (quiet_of_write hmsg) (tx_of_write hmsg)
    exact hwritten.send_action ((quiet_of_write hmsg).phase hphase) (opening_of_write h.prologue hmsg)
  | write_old _ hlast hbuf => exact h.send_action hphase (hpending hlast _ hbuf)
  | @read_stopped r _ hsteps _ =>
    refine ⟨h.keeps hphase hquiet (tx_of_messageSteps hsteps :), fun hagain => ?_⟩
    exact pending_of_messageSteps hsteps (.inl hagain)
  | read_done _ hsteps hn =>
    exact ⟨h.keeps hphase hquiet (tx_of_messageSteps hsteps :), pending_of_messageSteps hsteps (.inr hn)⟩
  | split _ =>
    obtain ⟨henv, hcode⟩ := split_action_env N w
    exact ⟨h.keeps hphase hquiet (congrArg Env.tx henv), fun hagain => absurd hagain hcode⟩
  | failed => exact ⟨h, by simp⟩

/-- The phase `NGX_NSOC_HANDSHAKE_NONE_PHASE` of a client. -/
theorem Spoken.start {N : NoiseC S} {w : Endpoint S} (h : Spoken N w)
    (hphase : w.nc.handshake_phase = .none_phase)
    {flow : ControlFlow (Endpoint S) (Int × Endpoint S)} (hflow : w.start_handshake N = ok flow) :
    SpokenFlow N flow ∧ ∀ v, flow = .cont v → v.nc.handshake_phase ≠ .none_phase := by
  have hhanded := StartOutcome.handed hflow h.handed fun hcall => ⟨w, hcall, h.role, h.prologue⟩
  have htx := h.silent hphase
  cases start_handshake_cases hflow with
  | @failed v hframe =>
    have henv : (v.setBuf none).env.tx = [] := (congrArg Env.tx hframe.env).trans htx
    have hstill : v.nc.handshake_phase = .none_phase :=
      (congrArg NoiseConnection.handshake_phase hframe.nc).trans hphase
    refine ⟨⟨⟨?_, hframe.prologue.trans h.prologue, hhanded, ?_, fun _ => henv, ?_⟩, by simp⟩, by simp⟩
    · exact (congrArg NoiseConnection.noise_role hframe.nc).trans h.role
    · rw [henv]
      exact ⟨[], rfl, by simp⟩
    · exact fun hnot => absurd hstill hnot
  | @started v hframe hinit =>
    have henv : v.env.tx = [] := (congrArg Env.tx hframe.env).trans htx
    have hmem : .set_prologue proxy_prologue.bytes ∈ v.trace := by
      cases init_handshake_trace hinit with
      | refused hn _ => cases hn
      | passed obs htrace _ _ =>
        rw [htrace, h.prologue]
        simp
    refine ⟨⟨⟨h.role, hframe.prologue.trans h.prologue, hhanded, ?_, fun _ => henv, fun _ => hmem⟩, ?_⟩, ?_⟩
    · exact ⟨[], henv, by simp⟩
    · intro hwrite
      cases hwrite
    · rintro _ ⟨⟩ hnone
      cases hnone

/-- One pass of `ngx_nsoc_do_handshake_process`. -/
theorem Spoken.pass {N : NoiseC S} {fuel : Nat} {w : Endpoint S} (h : Spoken N w)
    (hpending : w.Pending) {flow : ControlFlow (Endpoint S) (Int × Endpoint S)}
    (hflow : w.do_handshake_process_body N fuel = ok flow) : SpokenFlow N flow := by
  unfold do_handshake_process_body at hflow
  cases hphase : w.nc.handshake_phase with
  | none_phase =>
    simp only [hphase, bind_eq_ok_iff, Endpoint.none_phase, h.role] at hflow
    obtain ⟨step, hnone, hrest⟩ := hflow
    obtain ⟨hstep, hstarted⟩ := h.start hphase hnone
    cases step with
    | done r =>
      cases hrest
      exact hstep
    | cont v => exact hstep.1.process hstep.2 (hstarted v rfl) (process_phase_cases hrest)
  | process_phase =>
    rw [hphase] at hflow
    exact h.process hpending (by simp [hphase]) (process_phase_cases hflow)
  | end_phase =>
    rw [hphase] at hflow
    cases hflow
    exact ⟨h, hpending⟩

theorem Spoken.do_handshake_process {N : NoiseC S} {fuel : Nat} {w : Endpoint S} (h : Spoken N w)
    (hpending : w.Pending) {r : Int × Endpoint S} (hcall : w.do_handshake_process N fuel = ok r) :
    SpokenFlow N (.done r) := by
  refine loop_invariant (fun v => Spoken N v ∧ v.Pending) (fun r => SpokenFlow N (.done r)) ?_ ?_
    ⟨h, hpending⟩ hcall
  · exact fun v next hv hnext => hv.1.pass hv.2 hnext
  · exact fun v value hv hvalue => hv.1.pass hv.2 hvalue

/-- The runs of a client, up to the end of its handshake; the flag says that it goes on. -/
inductive ClientRun (N : NoiseC S) : Bool → Endpoint S → Prop where
  | start {w : Endpoint S} (hfresh : w.Fresh) (hrole : w.nc.noise_role = .client)
      (hprologue : w.prologue = proxy_prologue) (htx : w.env.tx = []) : ClientRun N true w
  | handshake {w v : Endpoint S} {fuel : Nat} {rc : Int} (hrun : ClientRun N true w)
      (hcall : w.do_handshake_process N fuel = ok (rc, v)) : ClientRun N (rc = NGX_AGAIN) v
  | resumed {w v : Endpoint S} (hrun : ClientRun N true w) (hresumed : Resumed w v) :
      ClientRun N true v

theorem ClientRun.spoken {N : NoiseC S} {live : Bool} {w : Endpoint S} (h : ClientRun N live w) :
    Spoken N w ∧ (live = true → w.Pending) := by
  induction h with
  | start hfresh hrole hprologue htx =>
    obtain ⟨ctx, buffer_size, role, buffer, hnc⟩ := hfresh.nc
    refine ⟨⟨hrole, hprologue, ?_, ⟨[], htx, by simp⟩, fun _ => htx, ?_⟩, fun _ hwrite => ?_⟩
    · rw [hfresh.trace]
      trivial
    · intro hphase
      rw [hnc] at hphase
      exact absurd rfl hphase
    · rw [hnc] at hwrite
      cases hwrite
  | handshake hrun hcall ih =>
    have hflow := ih.1.do_handshake_process (ih.2 rfl) hcall
    exact ⟨hflow.1, fun hrc => hflow.2 (of_decide_eq_true hrc)⟩
  | @resumed w v hrun hresumed ih =>
    obtain ⟨hspoken, hpending⟩ := ih
    refine ⟨⟨hresumed.quiet.role.trans hspoken.role, hresumed.prologue.trans hspoken.prologue,
      hresumed.quiet.handed hspoken.handed, ?_, ?_, ?_⟩, fun _ => ?_⟩
    · rw [hresumed.tx]
      exact hspoken.sent
    · rw [hresumed.nc, hresumed.tx]
      exact hspoken.silent
    · rw [hresumed.nc, hresumed.trace]
      exact hspoken.installed
    · rw [Pending, hresumed.nc]
      exact hpending rfl

end Endpoint

end ngx_nsoc
