import NoiseSocket.Handler.Handshake.Entering
import NoiseSocket.Handler.Handshake.Stream
import NoiseSocket.Handler.Timers.Run

open Exec Exec.Result

namespace ngx_nsoc

variable {S : Type}

namespace Endpoint

/-- What holds whenever a phase of the handshake begins. -/
structure Sound (w : Endpoint S) : Prop where
  delivered : AllAnnounced w.trace
  neg : w.NegKnown
  start : w.AtStart
  unsent : w.nc.last = NOISE_ACTION_WRITE_MESSAGE → w.nc.buf ≠ none
  entering : w.Entering
  idle : w.nc.last ≠ NOISE_ACTION_READ_MESSAGE → w.nc.noise_msg = .unset
  first : w.nc.handshake_phase = .none_phase → w.nc.noise_msg = .unset

/-- The end of the code that receives a message. -/
def SoundRead (r : Int × Endpoint S) : Prop :=
  AllAnnounced r.2.trace ∧ (r.1 = NGX_AGAIN ∨ r.1 = NGX_OK → r.2.Sound)

/-- What a phase leaves behind. -/
def SoundFlow : ControlFlow (Endpoint S) (Int × Endpoint S) → Prop
  | .cont w => w.Sound
  | .done (n, w) => AllAnnounced w.trace ∧ (n = NGX_AGAIN → w.Sound)

theorem Reads.delivered {w v : Endpoint S} (h : Reads w v) (hw : AllAnnounced w.trace) :
    AllAnnounced v.trace := by
  obtain ⟨obs, htrace, hread⟩ := h.trace
  rw [htrace, allAnnounced_append]
  · exact hw
  · rintro o ho message code rfl
    cases hread _ ho

theorem soundRead_error {w : Endpoint S} (h : AllAnnounced w.trace) : SoundRead (NGX_ERROR, w) := by
  refine ⟨h, ?_⟩
  rintro (hagain | hok)
  · cases hagain
  · cases hok

section

variable {N : NoiseC S} {w v : Endpoint S} {n : Int}

/-- A read that is to be resumed. -/
theorem sound_of_suspended (hdelivered : AllAnnounced w.trace) (hneg : w.NegKnown)
    (hstart : w.AtStart) (hlast : w.nc.last = NOISE_ACTION_READ_MESSAGE) (hentering : w.Entering)
    (hfirst : w.nc.handshake_phase = .none_phase → w.nc.noise_msg = .unset) : w.Sound := by
  refine ⟨hdelivered, hneg, hstart, ?_, hentering, fun hother => absurd hlast hother, hfirst⟩
  intro hwrite
  cases hlast.symm.trans hwrite

theorem Sound.read_noise (hw : w.Sound) (hphase : w.nc.handshake_phase = .process_phase)
    (hwhole : w.Whole) (hgate : GateOutcome (w.setLast 0) (.leave n v)) (hn : 0 ≤ n) (fuel : Nat) :
    ((v.setBuf none).read_message_noise N fuel).Safe SoundRead := by
  have hentering : (w.setLast 0).Entering := hw.entering.congr rfl rfl rfl rfl rfl
  obtain ⟨hquiet, hmessage, hbarred⟩ := hgate.passed hn hentering hwhole.format
  obtain ⟨hrx, hmsg⟩ := hgate.rx_of_nonneg hn
  have hreceiving : AtNoise w.AtOpening (v.setBuf none) := by
    refine ⟨hmessage.congr rfl rfl rfl, ?_, rfl⟩
    show Undivided w.AtOpening v.nc.noise_msg v.env.rx
    rw [hmsg]
    exact hwhole.message v.env.rx hrx
  have hneg : v.NegKnown := by
    refine hgate.negKnown ?_ hw.neg
    simp only [NGX_ERROR]
    omega
  have hread : ((v.setBuf none).read_noise_msg fuel).Safe
      fun q => NoiseEnd w.AtOpening q ∧ MsgSteps (v.setBuf none) q :=
    .of_cases (read_noise_msg_ne_fault _ _) fun q hq =>
      ⟨hreceiving.read_noise_msg hq, read_noise_msg_cases hq⟩
  refine hread.bind ?_
  rintro ⟨code, u⟩ ⟨hend, hsteps⟩
  have hframe := hsteps.frame
  have hdelivered : AllAnnounced u.trace := by
    refine Reads.delivered ?_ hw.delivered
    exact (w.reads_setLast 0).trans (hgate.reads.trans ((reads_setBuf _ _).trans hframe.reads))
  have hphase' : u.nc.handshake_phase = .process_phase := by
    refine Eq.trans ?_ hphase
    exact (hgate.reads.trans ((reads_setBuf _ _).trans hframe.reads)).handshake_phase
  have hneg' : u.nc.neg_data = v.nc.neg_data := hframe.other .neg_data (by simp)
  have hstart : u.AtStart := by
    refine hsteps.atStart ?_
    intro b hb
    cases hb
  have hsound : code = NGX_AGAIN → u.Entering → u.Sound := by
    intro hagain hentering'
    refine sound_of_suspended hdelivered ?_ hstart (hsteps.last hagain) hentering' ?_
    · intro k hk
      exact hneg k (hneg'.symm.trans hk)
    · intro hnone
      cases hphase'.symm.trans hnone
  dsimp only
  cases hend with
  | waits hagain hmessage' =>
    have hagain : code = NGX_AGAIN := hagain
    rw [if_pos (by rw [hagain]; decide)]
    refine ⟨hdelivered, fun _ => hsound hagain (.inside ?_ hmessage')⟩
    rw [Undisturbed, hneg', hframe.msg_num]
    exact hquiet
  | cut hagain hopening =>
    have hagain : code = NGX_AGAIN := hagain
    rw [if_pos (by rw [hagain]; decide)]
    refine ⟨hdelivered, fun _ => hsound hagain (.barred ?_)⟩
    rw [Barred, hneg', hframe.msg_num]
    exact hbarred hopening
  | failed herror =>
    obtain rfl : code = NGX_ERROR := herror
    rw [if_pos (by decide)]
    exact soundRead_error hdelivered
  | complete hge b hbuf hmessage' =>
    have hge : 0 ≤ code := hge
    have hbuf : u.nc.buf = some b := hbuf
    rw [if_neg (by omega), hbuf]
    dsimp only
    split_ifs
    · exact soundRead_error ⟨hmessage', hdelivered⟩
    · refine ⟨⟨hmessage', hdelivered⟩, fun _ => ?_⟩
      refine ⟨⟨hmessage', hdelivered⟩, ?_, ?_, ?_, .between rfl, fun _ => rfl, fun _ => rfl⟩
      · intro k hk
        cases hk
      · intro b' hb'
        cases hb'
      · intro hwrite
        cases hwrite

/-- AtNoise a message: nothing is read through `nc->buf` when it is not there, and noise-c is given
what has come in. -/
theorem Sound.read (hw : w.Sound) (hphase : w.nc.handshake_phase = .process_phase)
    (hwhole : w.Whole) (fuel : Nat) :
    ((w.setLast 0).handshake_start_action_read_message N fuel).Safe SoundRead := by
  have hentering : (w.setLast 0).Entering := hw.entering.congr rfl rfl rfl rfl rfl
  have hneg : (w.setLast 0).NegKnown := hw.neg
  refine (read_message_gate_safe hneg hw.start fuel fuel).bind ?_
  intro e hgate
  have hreads : Reads w (ReadExit.state e) := (w.reads_setLast 0).trans hgate.reads
  cases e with
  | ret n v =>
    obtain rfl := hgate.ret_error
    exact soundRead_error (hreads.delivered hw.delivered)
  | leave n v =>
    dsimp only
    split_ifs with hlt
    · have hdelivered : AllAnnounced v.trace := hreads.delivered hw.delivered
      refine ⟨hdelivered, ?_⟩
      rintro (hagain | hok)
      · have hagain : n = NGX_AGAIN := hagain
        refine sound_of_suspended hdelivered ?_ ?_ (hgate.last hagain) ?_ ?_
        · exact hgate.negKnown (by rw [hagain]; decide) hneg
        · intro b hb
          cases hb
        · exact (hgate.entering hagain hentering).congr rfl rfl rfl rfl rfl
        · intro hnone
          cases (hreads.handshake_phase.trans hphase).symm.trans hnone
      · have hok : n = NGX_OK := hok
        rw [hok] at hlt
        cases hlt
    · exact hw.read_noise hphase hwhole hgate (by omega) fuel

theorem Sound.unset_of_write (hw : w.Sound) (haction : w.action N = NOISE_ACTION_WRITE_MESSAGE) :
    w.nc.noise_msg = .unset := by
  apply hw.idle
  intro hlast
  simp [action, hlast] at haction

/-- A message to write has been made, or has not. -/
theorem Sound.written {b : Option Buf} (hw : w.Sound) (hunset : w.nc.noise_msg = .unset)
    (h : w.handshake_start_action_write_message N = ok (n, b, v)) :
    v.Sound ∧ v.nc.noise_msg = .unset ∧ (n = NGX_OK → ∀ b', b = some b' → b'.pos = 0) := by
  obtain ⟨hframe, hout⟩ := write_message_cases h
  have hmsg : v.nc.noise_msg = .unset := by
    rw [hframe.nc]
    exact hunset
  have hsound : AllAnnounced v.trace → v.Sound := by
    intro hdelivered
    refine ⟨hdelivered, ?_, ?_, ?_, .between hmsg, fun _ => hmsg, fun _ => hmsg⟩
    · rw [NegKnown, hframe.nc]
      exact hw.neg
    · rw [AtStart, hframe.nc]
      exact hw.start
    · rw [hframe.nc]
      exact hw.unsent
  cases hout with
  | refused hn htrace =>
    refine ⟨hsound (by rw [htrace]; exact hw.delivered), hmsg, fun hok => ?_⟩
    cases hn.symm.trans hok
  | noise_error code hn hcode _ _ htrace =>
    refine ⟨hsound (by rw [htrace]; exact hw.delivered), hmsg, fun hok => ?_⟩
    have hzero : (code : Int) = 0 := hn.symm.trans hok
    exact absurd (Int.natCast_eq_zero.mp hzero) hcode
  | error_message _ _ hb htrace | written _ _ _ _ _ _ hb htrace =>
    refine ⟨hsound (by rw [htrace]; exact hw.delivered), hmsg, ?_⟩
    rintro - b' rfl
    cases hb
    rfl

theorem Sound.sent {b : Buf} {flow : ControlFlow (Endpoint S) (Int × Endpoint S)} (hw : w.Sound)
    (hunset : w.nc.noise_msg = .unset) (hb : b.pos = 0) (hsend : SendOutcome N b w flow) :
    SoundFlow flow := by
  have hsound : ∀ {u : Endpoint S}, SendFrame w u →
      (u.nc.last = NOISE_ACTION_WRITE_MESSAGE → u.nc.buf ≠ none) →
      (∀ b', u.nc.buf = some b' → b'.pos = 0) → u.Sound := by
    intro u hframe hkept hstart
    have hmsg : u.nc.noise_msg = .unset := by
      rw [hframe.nc]
      exact hunset
    refine ⟨?_, ?_, hstart, hkept, .between hmsg, fun _ => hmsg, fun _ => hmsg⟩
    · rw [hframe.trace]
      exact hw.delivered
    · rw [NegKnown, hframe.nc]
      exact hw.neg
  cases hsend with
  | refused hframe _ =>
    refine ⟨?_, fun hn => by cases hn⟩
    rw [hframe.trace]
    exact hw.delivered
  | @blocked u hframe _ _ hbuf _ =>
    refine ⟨by rw [hframe.trace]; exact hw.delivered, fun _ => hsound hframe ?_ ?_⟩
    · intro _ hnone
      rw [hbuf] at hnone
      cases hnone
    · intro b' hb'
      rw [hbuf] at hb'
      cases hb'
      exact hb
  | @wait u hframe _ hlast hbuf _ _ =>
    refine ⟨by rw [hframe.trace]; exact hw.delivered, fun _ => hsound hframe ?_ ?_⟩
    · intro hwrite
      cases hlast.symm.trans hwrite
    · intro b' hb'
      cases hbuf.symm.trans hb'
  | go_on hframe _ hlast hbuf _ =>
    refine hsound hframe ?_ ?_
    · intro hwrite
      cases hlast.symm.trans hwrite
    · intro b' hb'
      cases hbuf.symm.trans hb'

/-- The reply to another version is kept where the socket does not take it. -/
theorem kept_of_version_error (h : w.version_error N = ok (NGX_AGAIN, v)) :
    v.nc.last = NOISE_ACTION_WRITE_MESSAGE ∧ ∃ b, v.nc.buf = some b ∧ b.pos = 0 := by
  have hcall := h
  simp only [version_error, bind_eq_ok_iff] at hcall
  obtain ⟨⟨code, b, u⟩, hmsg, hrest⟩ := hcall
  obtain ⟨-, rfl | ⟨rfl, rfl⟩⟩ := (write_message_cases hmsg).2.of_error rfl
  · rw [if_pos (by simp)] at hrest
    cases hrest
  rw [version_error_eq_reply hmsg] at h
  have hreply : u.reply ⟨err_message, 0, message_room NGX_NSOC_2MSG_NEG_DATA_ERR_SIZE⟩ =
      (NGX_AGAIN, v) := Result.ok.inj h
  unfold reply at hreply
  dsimp only at hreply
  split_ifs at hreply
  · obtain ⟨-, heq⟩ | heq := write_again_cases
      (((u.ngx_send (err_message.drop 0)).2).setHandlers .handshake_handler)
      ⟨err_message, 0, message_room NGX_NSOC_2MSG_NEG_DATA_ERR_SIZE⟩
    · rw [heq] at hreply
      cases hreply
    · rw [heq] at hreply
      cases hreply
      exact ⟨rfl, _, rfl, rfl⟩
  · cases hreply

/-- The noise-c objects have been set up, or have not. -/
theorem soundFlow_of_start {flow : ControlFlow (Endpoint S) (Int × Endpoint S)}
    (hdelivered : AllAnnounced w.trace) (hneg : w.NegKnown) (hunset : w.nc.noise_msg = .unset)
    (hstart : StartOutcome N w flow) : SoundFlow flow := by
  have hinit : ∀ {u : Endpoint S}, InitFrame w u → AllAnnounced u.trace := by
    intro u hframe
    obtain ⟨obs, htrace, hsetup⟩ := hframe.trace
    rw [htrace, allAnnounced_append]
    · exact hdelivered
    · rintro o ho message code rfl
      cases hsetup _ ho
  cases hstart with
  | @failed u hframe =>
    have htrace : AllAnnounced u.trace := hinit hframe
    exact ⟨htrace, fun hn => by cases hn⟩
  | @started u hframe _ =>
    have htrace : AllAnnounced u.trace := hinit hframe
    refine ⟨htrace, hneg, ?_, ?_, .between hunset, fun _ => hunset, fun _ => hunset⟩
    · intro b hb
      cases hb
    · intro hwrite
      cases hwrite

/-- The phase `NGX_NSOC_HANDSHAKE_NONE_PHASE`. -/
theorem Sound.none {flow : ControlFlow (Endpoint S) (Int × Endpoint S)} (hw : w.Sound)
    (hphase : w.nc.handshake_phase = .none_phase) (hstep : NoneStep N w flow) : SoundFlow flow := by
  have hunset := hw.first hphase
  -- the negotiation data of the first message has been read for
  have hread : ∀ {r : Int × Endpoint S}, NegSteps NGX_NSOC_1MSG_NEG_DATA_SIZE w r →
      AllAnnounced r.2.trace ∧ r.2.nc.noise_msg = .unset ∧ r.2.AtStart ∧
        (r.1 ≠ NGX_ERROR → r.2.NegKnown) := by
    intro r hneg
    exact ⟨hneg.frame.reads.delivered hw.delivered,
      (hneg.frame.other .noise_msg (by simp)).trans hunset, hneg.atStart hw.start,
      hneg.negKnown (.inr rfl) hw.neg⟩
  cases hstep with
  | client _ hstart => exact soundFlow_of_start hw.delivered hw.neg hunset hstart
  | neg_stopped _ hneg _ =>
    obtain ⟨hdelivered, hmsg, hstart, hknown⟩ := hread hneg
    refine ⟨hdelivered, fun hagain => ?_⟩
    exact sound_of_suspended hdelivered (hknown (by rw [hagain]; decide)) hstart (hneg.last hagain)
      (.between hmsg) fun _ => hmsg
  | @version r q b first_hdr _ hneg hn _ _ _ hreply =>
    obtain ⟨hdelivered, hmsg, -, hknown⟩ := hread hneg
    obtain ⟨code, u⟩ := q
    obtain ⟨hframe, -⟩ := version_error_cases hreply
    have hdelivered' : AllAnnounced u.trace := by
      rw [hframe.trace]
      exact hdelivered
    refine ⟨hdelivered', ?_⟩
    rintro rfl
    obtain ⟨hlast, b', hbuf, hb'⟩ := kept_of_version_error hreply
    have hmsg' : u.nc.noise_msg = .unset := hframe.noise_msg.trans hmsg
    refine ⟨hdelivered', ?_, ?_, ?_, .between hmsg', fun _ => hmsg', fun _ => hmsg'⟩
    · rw [NegKnown, hframe.neg_data]
      refine hknown ?_
      simp only [NGX_ERROR]
      omega
    · intro b'' hb''
      rw [hbuf] at hb''
      cases hb''
      exact hb'
    · intro _ hnone
      cases hbuf.symm.trans hnone
  | @header r b first_hdr flow _ hneg hn _ _ _ hstart =>
    obtain ⟨hdelivered, hmsg, -, hknown⟩ := hread hneg
    refine soundFlow_of_start ?_ ?_ ?_ hstart
    · exact hdelivered
    · refine hknown ?_
      simp only [NGX_ERROR]
      omega
    · exact hmsg

theorem process_phase_of_read (haction : w.action N = NOISE_ACTION_READ_MESSAGE) (fuel : Nat) :
    w.process_phase N fuel = (w.setLast 0).handshake_start_action_read_message N fuel >>= fun r =>
      if r.1 ≠ NGX_OK then ok (.done r) else ok (.cont r.2) := by
  unfold process_phase
  rw [if_neg (by rw [haction]; decide), if_pos haction]

/-- The phase `NGX_NSOC_HANDSHAKE_PROCESS_PHASE`. -/
theorem Sound.process {fuel : Nat} {flow : ControlFlow (Endpoint S) (Int × Endpoint S)}
    (hw : w.Sound) (hphase : w.nc.handshake_phase = .process_phase)
    (hwhole : w.action N = NOISE_ACTION_READ_MESSAGE → w.Whole)
    (h : w.process_phase N fuel = ok flow) : SoundFlow flow := by
  by_cases hread : w.action N = NOISE_ACTION_READ_MESSAGE
  · rw [process_phase_of_read hread, bind_eq_ok_iff] at h
    obtain ⟨r, hcall, hflow⟩ := h
    obtain ⟨hdelivered, hsound⟩ := (hw.read hphase (hwhole hread) fuel).of_eq_ok hcall
    split_ifs at hflow with hn
    · cases hflow
      exact ⟨hdelivered, fun hagain => hsound (.inl hagain)⟩
    · cases hflow
      exact hsound (.inr (not_not.mp hn))
  cases process_phase_cases h with
  | @write_failed n b v haction _ hmsg hn =>
    obtain ⟨hv, -⟩ := hw.written (hw.unset_of_write haction) hmsg
    exact ⟨hv.delivered, fun _ => hv⟩
  | write_new haction _ hmsg =>
    obtain ⟨hv, hunset, hb⟩ := hw.written (hw.unset_of_write haction) hmsg
    exact hv.sent hunset (hb rfl _ rfl) (send_action_cases N _ _)
  | write_old haction _ hbuf =>
    exact hw.sent (hw.unset_of_write haction) (hw.start _ hbuf) (send_action_cases N _ _)
  | read_stopped haction _ _ => exact absurd haction hread
  | read_done haction _ _ => exact absurd haction hread
  | split haction =>
    have htrace : AllAnnounced (w.split_action N).2.trace := by
      rw [split_action_trace]
      exact hw.delivered
    exact ⟨htrace, fun hagain => absurd hagain (split_action_ne_again N w)⟩
  | failed => exact ⟨hw.delivered, fun hagain => by cases hagain⟩

end

/-- The `switch` of a pass, at the label of the phase. -/
def phase (N : NoiseC S) (fuel : Nat) (w : Endpoint S) :
    Result (ControlFlow (Endpoint S) (Int × Endpoint S)) :=
  match w.nc.handshake_phase with
  | .none_phase => w.none_phase N fuel
  | .process_phase => w.process_phase N fuel
  | .end_phase => ok (.cont w)

/-- The states in which a phase begins, in a run of calls from `start` on in which each of them
satisfies `cond`: a call begins, goes on with the next phase or the next pass, or is suspended, and
another call begins when the event core reports an event. -/
inductive Reached (N : NoiseC S) (cond : Endpoint S → Prop) (start : Endpoint S) :
    Endpoint S → Prop where
  | first : Reached N cond start start
  | next {fuel : Nat} {w v : Endpoint S} (hrun : Reached N cond start w) (hcond : cond w)
      (hphase : w.phase N fuel = ok (.cont v)) : Reached N cond start v
  | resumed {fuel : Nat} {w v : Endpoint S} {read write : Bool} (hrun : Reached N cond start w)
      (hcond : cond w) (hphase : w.phase N fuel = ok (.done (NGX_AGAIN, v))) :
      Reached N cond start (v.wake read write)

/-- Where the phase that begins receives a message, the message comes in whole. -/
def ReadsWhole (N : NoiseC S) (w : Endpoint S) : Prop :=
  w.nc.handshake_phase = .process_phase → w.action N = NOISE_ACTION_READ_MESSAGE → w.Whole

/-- Where the phase that begins reads through `nc->buf`, there is something to read. -/
structure Valid (N : NoiseC S) (w : Endpoint S) : Prop where
  header : w.nc.handshake_phase = .none_phase → w.nc.noise_role = .server → ∀ fuel r,
    w.read_negotiation fuel NGX_NSOC_1MSG_NEG_DATA_SIZE = ok r → 0 < r.1 →
      (r.2.nc.buf.bind fun b => FirstHdr.ofBytes b.bytes) ≠ none
  message : w.nc.handshake_phase = .process_phase → w.action N = NOISE_ACTION_READ_MESSAGE →
    ∀ fuel, (w.setLast 0).handshake_start_action_read_message N fuel ≠ fault
  resumed : w.nc.handshake_phase = .process_phase → w.action N = NOISE_ACTION_WRITE_MESSAGE →
    w.nc.last ≠ 0 → w.nc.buf ≠ none

section

variable {N : NoiseC S} {start w : Endpoint S}

theorem Sound.phase {fuel : Nat} {flow : ControlFlow (Endpoint S) (Int × Endpoint S)} (hw : w.Sound)
    (hwhole : w.ReadsWhole N) (h : w.phase N fuel = ok flow) : SoundFlow flow := by
  unfold Endpoint.phase at h
  cases hphase : w.nc.handshake_phase with
  | none_phase =>
    rw [hphase] at h
    exact hw.none hphase (none_phase_cases h)
  | process_phase =>
    rw [hphase] at h
    exact hw.process hphase (hwhole hphase) h
  | end_phase =>
    rw [hphase] at h
    cases h
    exact hw

theorem stream_phase {fuel : Nat} {flow : ControlFlow (Endpoint S) (Int × Endpoint S)}
    (h : w.phase N fuel = ok flow) : (flowState flow).stream = w.stream := by
  unfold Endpoint.phase at h
  split at h
  · exact stream_none_phase h
  · exact stream_process_phase h
  · cases h
    rfl

theorem Reached.stream {cond : Endpoint S → Prop} (h : Reached N cond start w) :
    w.stream = start.stream := by
  induction h with
  | first => rfl
  | next _ _ hphase ih => exact (stream_phase hphase).trans ih
  | resumed _ _ hphase ih => exact (stream_phase hphase).trans ih

theorem Sound.valid (hw : w.Sound) (hwhole : w.ReadsWhole N) : w.Valid N := by
  refine ⟨?_, ?_, ?_⟩
  · intro _ _ fuel r hread hn
    exact header_ne_none hw.neg hread hn
  · intro hphase hread fuel
    exact (hw.read hphase (hwhole hphase hread) fuel).ne_fault
  · intro hphase haction hlast
    refine hw.unsent ?_
    rwa [action, if_pos hlast] at haction

theorem Sound.wake (hw : w.Sound) (read write : Bool) : (w.wake read write).Sound :=
  ⟨hw.delivered, hw.neg, hw.start, hw.unsent, hw.entering.congr rfl rfl rfl rfl rfl, hw.idle, hw.first⟩

theorem Fresh.sound (h : start.Fresh) : start.Sound := by
  obtain ⟨ctx, buffer_size, role, buffer, hnc⟩ := h.nc
  have hmsg : start.nc.noise_msg = .unset := by
    rw [hnc]
    rfl
  refine ⟨?_, ?_, ?_, ?_, .between hmsg, fun _ => hmsg, fun _ => hmsg⟩
  · rw [h.trace]
    trivial
  · intro k hk
    rw [hnc] at hk
    cases hk
  · intro b hb
    rw [hnc] at hb
    cases hb
  · intro hlast
    rw [hnc] at hlast
    cases hlast

theorem Reached.sound (h : Reached N (ReadsWhole N) start w) (hstart : start.Fresh) : w.Sound := by
  induction h with
  | first => exact hstart.sound
  | next _ hcond hphase ih => exact ih.phase hcond hphase
  | resumed _ hcond hphase ih => exact ((ih.phase hcond hphase).2 rfl).wake _ _

end

/-- As long as every noise message has a length and comes in by one read behind it, every message
that noise-c is given is what the peer has sent behind its length, and nothing is read through
`nc->buf` when there is nothing. -/
theorem delivered_of_reached (N : NoiseC S) {start w : Endpoint S} (hstart : start.Fresh)
    (hrun : Reached N (ReadsWhole N) start w) (hwhole : w.ReadsWhole N) :
    w.Valid N ∧ ∀ fuel flow, w.phase N fuel = ok flow → AllAnnounced (flowState flow).trace ∧
      received (flowState flow).trace <+: start.env.rx.bytes := by
  have hw := hrun.sound hstart
  refine ⟨hw.valid hwhole, ?_⟩
  intro fuel flow hphase
  have hflow := hw.phase hwhole hphase
  have hstream : (flowState flow).stream = start.env.rx.bytes := by
    rw [stream_phase hphase, hrun.stream, stream, hstart.trace, received_nil, List.nil_append]
  refine ⟨?_, (flowState flow).env.rx.bytes, hstream⟩
  cases flow with
  | cont v => exact hflow.delivered
  | done r => exact hflow.1

/-- The first message of the pattern, whose length is in front of it. -/
theorem delivered_of_first_message : ∃ w, Reached pattern_xx (ReadsWhole pattern_xx)
    (pattern_server [.data 0 ([6] ++ proxy_prologue.header.bytes ++ [0, 32] ++ Pattern.message 0)]
      false) w ∧ w.Valid pattern_xx ∧ ∀ fuel flow, w.phase pattern_xx fuel = ok flow →
        AllAnnounced (flowState flow).trace ∧ received (flowState flow).trace <+:
          [0, 6] ++ proxy_prologue.header.bytes ++ [0, 32] ++ Pattern.message 0 := by
  obtain ⟨w, hphase, hnum, hneg, hmsg, hrx⟩ : ∃ w, (pattern_server [.data 0 ([6] ++
      proxy_prologue.header.bytes ++ [0, 32] ++ Pattern.message 0)] false).phase pattern_xx 8 =
        ok (.cont w) ∧ w.nc.msg_num = NGX_NSOC_1MSG ∧ w.nc.neg_data = .known 6 ∧
      w.nc.noise_msg = .unset ∧ w.env.rx = ⟨[.data 0 (32 :: Pattern.message 0)], false⟩ :=
    ⟨_, rfl, rfl, rfl, rfl, rfl⟩
  have hrun : Reached pattern_xx (ReadsWhole pattern_xx) (pattern_server [.data 0 ([6] ++
      proxy_prologue.header.bytes ++ [0, 32] ++ Pattern.message 0)] false) w := by
    refine .next .first ?_ hphase
    intro hprocess
    cases hprocess
  have hwhole : w.Whole := by
    refine ⟨fun _ => by rw [hneg]; rfl, ?_⟩
    intro rx hgate len rest hlen
    rw [gate_rx, if_pos hnum, hrx] at hgate
    cases hgate
    rw [hmsg] at hlen
    cases hlen
    refine ⟨by decide, ?_⟩
    intro got rest' hrecv
    cases hrecv
    exact .inl rfl
  refine ⟨w, hrun, ?_⟩
  exact delivered_of_reached pattern_xx (Endpoint.fresh_create _ _ _ _ _ _ _ _) hrun
    fun _ _ => hwhole

/-- A client to which the second message comes in two segments. -/
def halved_client : Endpoint Pattern :=
  { pattern_client [] with env := Env.quiet [.data 0 [0, 0, 2, 7], .data 8 [9]] false }

/-- The peer sends the length zero behind the header, and `nc->buf` is not there; and a message of
the two bytes 7 and 8 comes in by two reads, and noise-c is given 8 and 9. -/
theorem not_delivered_of_empty_or_short :
    (∃ start w : Endpoint Pattern, start.Fresh ∧ Reached pattern_xx (fun _ => True) start w ∧
      ¬ w.Valid pattern_xx) ∧
    ∃ start w v : Endpoint Pattern, start.Fresh ∧ Reached pattern_xx (fun _ => True) start w ∧
      w.phase pattern_xx 8 = ok (.done (NGX_ERROR, v)) ∧ ¬ AllAnnounced v.trace := by
  constructor
  · obtain ⟨w, hphase, hprocess, haction, hfault⟩ : ∃ w, (pattern_server [.data 0 ([6] ++
        proxy_prologue.header.bytes ++ [0, 0])] false).phase pattern_xx 8 = ok (.cont w) ∧
        w.nc.handshake_phase = .process_phase ∧ w.action pattern_xx = NOISE_ACTION_READ_MESSAGE ∧
        (w.setLast 0).handshake_start_action_read_message pattern_xx 8 = fault :=
      ⟨_, rfl, rfl, rfl, rfl⟩
    refine ⟨_, w, Endpoint.fresh_create _ _ _ _ _ _ _ _, .next .first trivial hphase, ?_⟩
    intro hvalid
    exact hvalid.message hprocess haction 8 hfault
  · obtain ⟨u, hstart, hsent⟩ : ∃ u, halved_client.phase pattern_xx 8 = ok (.cont u) ∧
        ∃ x, u.phase pattern_xx 8 = ok (.done (NGX_AGAIN, x)) ∧
        ∃ y, (x.wake true false).phase pattern_xx 8 = ok (.done (NGX_AGAIN, y)) ∧
        ∃ v, (y.wake true false).phase pattern_xx 8 = ok (.done (NGX_ERROR, v)) ∧
        v.trace.head? = some (.read_message [8, 9] NOISE_ERROR_MAC_FAILURE) ∧
        (taken v.trace).reverse.drop 2 = [(.msg_data 2, 7), (.msg_len, 2), (.msg_len, 0),
          (.neg_len, 0), (.neg_len, 0)] :=
      ⟨_, rfl, _, rfl, _, rfl, _, rfl, rfl, rfl⟩
    obtain ⟨x, hx, y, hy, v, hv, hhead, hrest⟩ := hsent
    refine ⟨halved_client, y.wake true false, v, ?_, ?_, hv, ?_⟩
    · exact ⟨⟨_, _, _, _, rfl⟩, rfl, rfl, rfl⟩
    · exact .resumed (.resumed (.next .first trivial hstart) trivial hx) trivial hy
    · intro hdelivered
      obtain ⟨trace, htrace⟩ := List.head?_eq_some_iff.mp hhead
      rw [htrace] at hdelivered hrest
      obtain ⟨⟨earlier, b0, b1, -, hstream⟩, -⟩ := hdelivered
      rw [taken_cons, hstream] at hrest
      simp [Obs.taken] at hrest

end Endpoint

end ngx_nsoc
