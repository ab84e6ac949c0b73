import NoiseSocket.Handler.Handshake.Phases

open Exec Exec.Result

namespace ngx_nsoc

variable {S : Type}

/-- Whether noise-c has refused to write a message. -/
def Obs.isWriteError : Obs → Bool
  | .write_message _ code => code ≠ NOISE_ERROR_NONE
  | _ => false

theorem Obs.isWriteError_of_isRead {o : Obs} (h : o.isRead) : o.isWriteError = false := by
  cases o <;> simp_all [Obs.isRead, Obs.isWriteError]

namespace Endpoint

/-- What has been observed since `w`, and whether noise-c has refused to write a
message since then. -/
def Since (failed : Bool) (w w' : Endpoint S) : Prop :=
  ∃ obs, w'.trace = obs ++ w.trace ∧ obs.any Obs.isWriteError = failed

theorem since_of_trace {w w' : Endpoint S} (h : w'.trace = w.trace) : Since false w w' :=
  ⟨[], h, rfl⟩

theorem Since.trans {failed failed' : Bool} {u v w : Endpoint S} (h : Since failed u v)
    (h' : Since failed' v w) : Since (failed' || failed) u w := by
  obtain ⟨obs, htrace, rfl⟩ := h
  obtain ⟨obs', htrace', rfl⟩ := h'
  exact ⟨obs' ++ obs, by simp [htrace', htrace], by simp⟩

theorem Since.next {failed : Bool} {u v w : Endpoint S} (h : Since false u v)
    (h' : Since failed v w) : Since failed u w := by
  simpa using h.trans h'

theorem Reads.since {w w' : Endpoint S} (h : Reads w w') : Since false w w' := by
  obtain ⟨obs, htrace, hread⟩ := h.trace
  refine ⟨obs, htrace, ?_⟩
  simp only [List.any_eq_false, Bool.not_eq_true]
  intro o ho
  exact Obs.isWriteError_of_isRead (hread o ho)

theorem InitFrame.since {w w' : Endpoint S} (h : InitFrame w w') : Since false w w' := by
  obtain ⟨obs, htrace, hkind⟩ := h.trace
  refine ⟨obs, htrace, ?_⟩
  simp only [List.any_eq_false, Bool.not_eq_true]
  intro o ho
  have hsetup := hkind o ho
  cases o with
  | write_message num code => cases hsetup
  | _ => rfl

/-- The negative codes of the receiving code. -/
def Stops (n : Int) : Prop := n = NGX_ERROR ∨ n = NGX_AGAIN

theorem stops_read_again (w : Endpoint S) : Stops w.read_again.1 := by
  obtain ⟨-, hcode⟩ | ⟨hcode, -⟩ := w.read_again_cases
  · exact .inl hcode
  · exact .inr hcode

theorem stops_read_part {w : Endpoint S} {part : Part} {size : Nat}
    (hn : (w.read_part part size).1 < 0) : Stops (w.read_part part size).1 := by
  cases (read_part_cases part size w).2 with
  | empty _ hr => simp [hr] at hn
  | failed _ hcode _ _ => exact .inl hcode
  | again _ _ _ hcode | known_eof _ hcode | closed _ _ _ hcode | short _ _ _ hcode =>
    exact .inr hcode
  | whole b got _ _ hcode =>
    rw [hcode] at hn
    omega

theorem NegSteps.stops {true_len : Nat} {w : Endpoint S} {r : Int × Endpoint S}
    (h : NegSteps true_len w r) (hn : r.1 < 0) : Stops r.1 := by
  cases h with
  | known _ _ hr | accepted _ _ _ _ _ hr =>
    rw [hr] at hn ⊢
    exact stops_read_part hn
  | again v _ _ _ _ hr =>
    rw [hr]
    exact v.stops_read_again
  | error _ _ _ _ _ hr | mismatch _ _ _ _ _ hr => exact .inl (by rw [hr])

theorem MsgSteps.stops {w : Endpoint S} {r : Int × Endpoint S} (h : MsgSteps w r)
    (hn : r.1 < 0) : Stops r.1 := by
  cases h with
  | known _ _ hr | accepted _ _ _ _ _ _ hr =>
    rw [hr] at hn ⊢
    exact stops_read_part hn
  | again v _ _ _ _ hr =>
    rw [hr]
    exact v.stops_read_again
  | error _ _ _ _ _ hr => exact .inl (by rw [hr])

theorem Rereads.stops {k : Nat} {w : Endpoint S} {e : ReadExit S} (h : Rereads k w e) {n : Int}
    {v : Endpoint S} (he : e = .leave n v) : Stops n := by
  induction h with
  | stop hneg =>
    cases he
    exact stops_read_part hneg
  | status => cases he
  | more _ _ ih => exact ih he

theorem GateOutcome.stops {w v : Endpoint S} {n : Int} (h : GateOutcome w (.leave n v))
    (hn : n < 0) : Stops n := by
  generalize he : ReadExit.leave n v = e at h
  cases h with
  | first | second | third =>
    cases he
    simp at hn
  | stopped _ hsteps hneg =>
    cases he
    exact hsteps.stops hneg
  | reread _ _ _ hrest => exact hrest.stops he.symm
  | unknown => cases he

/-- The noise connection belongs to the connection. -/
def Bound (w : Endpoint S) : Prop := w.nc.connection = w.c.id

theorem ReplyFrame.bound {w w' : Endpoint S} (h : ReplyFrame w w') (hw : w.Bound) : w'.Bound := by
  have hc : w'.nc.connection = w.nc.connection := by
    simpa [NoiseConnection.settled] using congrArg NoiseConnection.connection h.settled
  rw [Bound, hc, h.id]
  exact hw

/-- What a handshake leaves of the connection while it goes on. -/
structure Keeps (w w' : Endpoint S) : Prop where
  since : Since false w w'
  hooked : w.IsHooked → w'.IsHooked
  handshaked : w'.nc.handshaked = w.nc.handshaked
  handshake_phase : w'.nc.handshake_phase = w.nc.handshake_phase
  bound : w.Bound → w'.Bound

theorem Keeps.trans {u v w : Endpoint S} (h : Keeps u v) (h' : Keeps v w) : Keeps u w :=
  ⟨h.since.next h'.since, fun hu => h'.hooked (h.hooked hu), h'.handshaked.trans h.handshaked,
    h'.handshake_phase.trans h.handshake_phase, fun hu => h'.bound (h.bound hu)⟩

theorem Reads.keeps {w w' : Endpoint S} (h : Reads w w') : Keeps w w' := by
  refine ⟨h.since, h.hooked, h.handshaked, h.handshake_phase, ?_⟩
  intro hw
  have hc : w'.nc.connection = w.nc.connection := by
    simpa [NoiseConnection.settled] using congrArg NoiseConnection.connection h.settled
  rw [Bound, hc, h.id]
  exact hw

theorem MessageSteps.keeps {N : NoiseC S} {w : Endpoint S} {r : Int × Endpoint S}
    (h : MessageSteps N w r) : Keeps w r.2 := by
  cases h with
  | gate_ret n v hgate hr =>
    rw [hr]
    exact hgate.reads.keeps
  | gate_stop n v hgate hn hr =>
    rw [hr]
    exact (hgate.reads.trans (reads_setBuf _ _)).keeps
  | msg_stop n v hgate hn hmsg hr =>
    exact (hgate.reads.trans ((reads_setBuf _ _).trans hmsg.frame.reads)).keeps
  | rejected n v q b code noise hgate hn hmsg hq hbuf hcall hcode hr =>
    rw [hr]
    refine (hgate.reads.trans ((reads_setBuf _ _).trans hmsg.frame.reads)).keeps.trans ?_
    exact ⟨⟨[_], rfl, rfl⟩, fun h => ⟨h.1, h.2⟩, rfl, rfl, fun h => h⟩
  | accepted n v q b noise hgate hn hmsg hq hbuf hcall hr =>
    rw [hr]
    refine (hgate.reads.trans ((reads_setBuf _ _).trans hmsg.frame.reads)).keeps.trans ?_
    exact ⟨⟨[_], rfl, rfl⟩, fun h => ⟨h.1, h.2⟩, rfl, rfl, fun h => h⟩

theorem MessageSteps.stops {N : NoiseC S} {w : Endpoint S} {r : Int × Endpoint S}
    (h : MessageSteps N w r) (hn : r.1 ≠ NGX_OK) : Stops r.1 := by
  cases h with
  | gate_ret n v hgate hr =>
    rw [hr]
    exact .inl hgate.ret_error
  | gate_stop n v hgate hneg hr =>
    rw [hr]
    exact hgate.stops hneg
  | msg_stop n v hgate hge hmsg hr => exact hmsg.stops hr
  | rejected n v q b code noise hgate hge hmsg hq hbuf hcall hcode hr => exact .inl (by rw [hr])
  | accepted n v q b noise hgate hge hmsg hq hbuf hcall hr => simp [hr] at hn

theorem WriteFrame.keeps {w w' : Endpoint S} (h : WriteFrame w w') (hsince : Since false w w') :
    Keeps w w' := by
  refine ⟨hsince, ?_, ?_, ?_, ?_⟩
  · intro hw
    exact ⟨by rw [h.c]; exact hw.read, by rw [h.c]; exact hw.write⟩
  · rw [h.nc]
  · rw [h.nc]
  · intro hw
    rw [Bound, h.nc, h.c]
    exact hw

theorem SendFrame.keeps {w w' : Endpoint S} (h : SendFrame w w') : Keeps w w' ∧ w'.IsHooked := by
  have hhooked : w'.IsHooked := ⟨h.read_handler, h.write_handler⟩
  refine ⟨⟨since_of_trace h.trace, fun _ => hhooked, ?_, ?_, ?_⟩, hhooked⟩
  · rw [h.nc]
  · rw [h.nc]
  · intro hw
    rw [Bound, h.nc, h.id]
    exact hw

/-- How a call of `ngx_nsoc_do_handshake_process` can end that started the
handshake of a server. -/
inductive CallResult (w : Endpoint S) : Int × Endpoint S → Prop where
  | completed {w' : Endpoint S} (hsince : Since false w w') (hdone : w'.nc.handshaked = true)
      (hbound : w.Bound → w'.Bound) : CallResult w (NGX_OK, w')
  | suspended {w' : Endpoint S} (hkeeps : Since false w w') (hhooked : w'.IsHooked)
      (hbound : w.Bound → w'.Bound) : CallResult w (NGX_AGAIN, w')
  | failed {w' : Endpoint S} (hsince : Since false w w')
      (hbound : w.Bound → w'.Bound) : CallResult w (NGX_ERROR, w')
  | refused {w' : Endpoint S} {code : Nat} (hcode : code ≠ NOISE_ERROR_NONE)
      (hsince : Since true w w') (hnot : w'.nc.handshaked = false)
      (hbound : w.Bound → w'.Bound) : CallResult w ((code : Int), w')

theorem CallResult.of_stops {w : Endpoint S} {r : Int × Endpoint S} (hstops : Stops r.1)
    (hkeeps : Keeps w r.2) (hhooked : r.2.IsHooked) : CallResult w r := by
  obtain ⟨n, w'⟩ := r
  cases hstops with
  | inl hn =>
    obtain rfl : n = NGX_ERROR := hn
    exact .failed hkeeps.since hkeeps.bound
  | inr hn =>
    obtain rfl : n = NGX_AGAIN := hn
    exact .suspended hkeeps.since hhooked hkeeps.bound

/-- A call that goes on behind what `w` has kept of an earlier state. -/
theorem CallResult.prepend {u w : Endpoint S} {r : Int × Endpoint S} (h : CallResult w r)
    (hkeeps : Since false u w) (hbound : u.Bound → w.Bound) :
    CallResult u r := by
  cases h with
  | completed hsince hdone hc => exact .completed (hkeeps.next hsince) hdone fun hu => hc (hbound hu)
  | suspended hsince hhooked hc =>
    exact .suspended (hkeeps.next hsince) hhooked fun hu => hc (hbound hu)
  | failed hsince hc => exact .failed (hkeeps.next hsince) fun hu => hc (hbound hu)
  | refused hcode hsince hnot hc =>
    exact .refused hcode (hkeeps.next hsince) hnot fun hu => hc (hbound hu)

/-- One pass: it goes on or ends the call. -/
def FlowResult (w : Endpoint S) (next : Endpoint S → Prop) :
    ControlFlow (Endpoint S) (Int × Endpoint S) → Prop
  | .cont v => Since false w v ∧ (w.Bound → v.Bound) ∧ next v
  | .done r => CallResult w r

/-- A handshake under way, with its events hooked. -/
structure Processing (w : Endpoint S) : Prop where
  phase : w.nc.handshake_phase = .process_phase
  hooked : w.IsHooked
  handshaked : w.nc.handshaked = false

theorem Keeps.processing {w w' : Endpoint S} (h : Keeps w w') (hw : w.Processing) :
    w'.Processing :=
  ⟨h.handshake_phase.trans hw.phase, h.hooked hw.hooked, h.handshaked.trans hw.handshaked⟩

theorem SendOutcome.result {N : NoiseC S} {b : Buf} {w : Endpoint S}
    {flow : ControlFlow (Endpoint S) (Int × Endpoint S)} (h : SendOutcome N b w flow)
    (hw : w.Processing) : FlowResult w Processing flow := by
  cases h with
  | refused hframe _ => exact .failed hframe.keeps.1.since hframe.keeps.1.bound
  | blocked hframe _ _ _ _ | wait hframe _ _ _ _ _ =>
    exact .suspended hframe.keeps.1.since hframe.keeps.2 hframe.keeps.1.bound
  | go_on hframe _ _ _ _ =>
    exact ⟨hframe.keeps.1.since, hframe.keeps.1.bound, hframe.keeps.1.processing hw⟩

theorem split_action_result (N : NoiseC S) (w : Endpoint S) : CallResult w (w.split_action N) := by
  unfold split_action
  dsimp only
  split_ifs
  · exact .failed (since_of_trace rfl) fun h => h
  · exact .failed (since_of_trace rfl) fun h => h
  · exact .completed (since_of_trace rfl) rfl fun h => h

theorem FlowResult.prepend {u w : Endpoint S} {next : Endpoint S → Prop}
    {flow : ControlFlow (Endpoint S) (Int × Endpoint S)} (h : FlowResult w next flow)
    (hkeeps : Since false u w) (hbound : u.Bound → w.Bound) :
    FlowResult u next flow := by
  cases flow with
  | done r => exact CallResult.prepend h hkeeps hbound
  | cont v =>
    obtain ⟨hsince, hc, hnext⟩ := h
    exact ⟨hkeeps.next hsince, fun hu => hc (hbound hu), hnext⟩

theorem ProcessStep.result {N : NoiseC S} {w : Endpoint S}
    {flow : ControlFlow (Endpoint S) (Int × Endpoint S)} (h : ProcessStep N w flow)
    (hw : w.Processing) : FlowResult w Processing flow := by
  cases h with
  | @write_failed n b v haction hlast hmsg hn =>
    obtain ⟨hframe, hout⟩ := write_message_cases hmsg
    have hc : w.Bound → v.Bound := by
      intro hbound
      rw [Bound, hframe.nc, hframe.c]
      exact hbound
    cases hout with
    | refused hcode htrace _ _ =>
      subst hcode
      exact .failed (since_of_trace htrace) hc
    | noise_error code hcode hne _ _ htrace =>
      subst hcode
      refine .refused hne ⟨[_], htrace, by simpa [Obs.isWriteError] using hne⟩ ?_ hc
      rw [hframe.nc]
      exact hw.handshaked
    | error_message hcode | written _ _ _ hcode => exact absurd hcode hn
  | @write_new b v haction hlast hmsg =>
    obtain ⟨hframe, hout⟩ := write_message_cases hmsg
    have hsince : Since false w v := by
      cases hout with
      | refused _ htrace | error_message _ _ _ htrace => exact since_of_trace htrace
      | noise_error code hcode hne => exact absurd (by simpa using hcode.symm) hne
      | written _ _ _ _ _ _ _ htrace => exact ⟨[_], htrace, rfl⟩
    have hkeeps := hframe.keeps hsince
    exact ((send_action_cases N b v).result (hkeeps.processing hw)).prepend hsince hkeeps.bound
  | write_old _ _ _ => exact (send_action_cases N _ w).result hw
  | read_stopped _ hsteps hn =>
    have hkeeps := (w.reads_setLast 0).keeps.trans hsteps.keeps
    exact .of_stops (hsteps.stops hn) hkeeps (hkeeps.hooked hw.hooked)
  | read_done _ hsteps _ =>
    have hkeeps := (w.reads_setLast 0).keeps.trans hsteps.keeps
    exact ⟨hkeeps.since, hkeeps.bound, hkeeps.processing hw⟩
  | split _ => exact w.split_action_result N
  | failed => exact .failed (since_of_trace rfl) fun h => h

/-- The readers hook the events before they wait for a length. -/
theorem NegSteps.hooked {true_len : Nat} {w : Endpoint S} {r : Int × Endpoint S}
    (h : NegSteps true_len w r) (hsize : w.nc.neg_data.incomplete) : r.2.IsHooked := by
  have hhooked : w.Hooked.IsHooked := ⟨rfl, rfl⟩
  have hlog : ∀ (v : Endpoint S) (len : Option Nat), Reads v (v.log (.negotiation true_len len)) :=
    fun v len => v.reads_log rfl
  cases h with
  | known size hknown _ => simp [hknown, SizeField.incomplete] at hsize
  | again v _ _ hlen _ hr =>
    rw [hr]
    exact (hlen.frame.reads.trans v.reads_read_again).hooked hhooked
  | error v _ _ hlen _ hr =>
    rw [hr]
    exact hlen.frame.reads.hooked hhooked
  | mismatch v _ hlen _ _ hr =>
    rw [hr]
    exact (hlen.frame.reads.trans (hlog v _)).hooked hhooked
  | accepted v _ hlen _ _ hr =>
    rw [hr]
    refine (hlen.frame.reads.trans ((hlog v (some true_len)).trans ?_)).hooked hhooked
    exact (read_part_cases _ _ _).1.reads

/-- No part that is to be received gives zero. -/
theorem NegSteps.ne_zero {true_len : Nat} {w : Endpoint S} {r : Int × Endpoint S}
    (h : NegSteps true_len w r) (hlen : 0 < true_len) (hsize : w.nc.neg_data.incomplete) :
    r.1 ≠ 0 := by
  cases h with
  | known size hknown _ => simp [hknown, SizeField.incomplete] at hsize
  | again v _ _ _ _ hr =>
    obtain hcode | hcode := v.stops_read_again
    all_goals simp [hr, hcode]
  | error _ _ _ _ _ hr | mismatch _ _ _ _ _ hr => simp [hr]
  | accepted v _ _ _ _ hr =>
    rw [hr]
    exact read_part_ne_zero _ _ hlen

/-- A server that waits for the first message, of which nothing has come in. -/
structure Starting (w : Endpoint S) : Prop where
  phase : w.nc.handshake_phase = .none_phase
  role : w.nc.noise_role = .server
  neg_data : w.nc.neg_data = .unset
  handshaked : w.nc.handshaked = false

theorem StartOutcome.result {N : NoiseC S} {w : Endpoint S}
    {flow : ControlFlow (Endpoint S) (Int × Endpoint S)} (h : StartOutcome N w flow)
    (hhooked : w.IsHooked) (hnot : w.nc.handshaked = false) : FlowResult w Processing flow := by
  cases h with
  | @failed v hframe =>
    refine .failed hframe.since fun hbound => ?_
    show v.nc.connection = v.c.id
    rw [hframe.nc, hframe.c]
    exact hbound
  | @started v hframe hinit =>
    refine ⟨hframe.since, fun hbound => ?_, rfl, ⟨?_, ?_⟩, hnot⟩
    · show w.nc.connection = v.c.id
      rw [hframe.c]
      exact hbound
    · show v.c.read.handler = _
      rw [hframe.c]
      exact hhooked.read
    · show v.c.write.handler = _
      rw [hframe.c]
      exact hhooked.write

theorem NoneStep.result {N : NoiseC S} {w : Endpoint S}
    {flow : ControlFlow (Endpoint S) (Int × Endpoint S)} (h : NoneStep N w flow)
    (hw : w.Starting) : FlowResult w Processing flow := by
  have hsize : w.nc.neg_data.incomplete := by
    rw [hw.neg_data]
    rfl
  cases h with
  | client hrole _ =>
    rw [hw.role] at hrole
    cases hrole
  | neg_stopped _ hneg hn =>
    have hne := hneg.ne_zero (by simp) hsize
    exact .of_stops (hneg.stops (by omega)) hneg.frame.reads.keeps (hneg.hooked hsize)
  | @version r q b first_hdr _ hneg _ _ _ _ hreply =>
    have hkeeps := hneg.frame.reads.keeps
    obtain ⟨n, v⟩ := q
    obtain ⟨hframe, rfl | ⟨rfl, -, hhooked⟩⟩ := version_error_cases hreply
    · exact .failed (hkeeps.since.next (since_of_trace hframe.trace))
        fun h => hframe.bound (hkeeps.bound h)
    · exact .suspended (hkeeps.since.next (since_of_trace hframe.trace)) hhooked
        fun h => hframe.bound (hkeeps.bound h)
  | @header r b first_hdr flow _ hneg _ _ _ _ hstart =>
    have hkeeps := hneg.frame.reads.keeps
    have hhooked := hneg.hooked hsize
    have hresult := hstart.result ⟨hhooked.read, hhooked.write⟩
      (hkeeps.handshaked.trans hw.handshaked)
    exact hresult.prepend hkeeps.since hkeeps.bound

theorem PassStep.result {N : NoiseC S} {w : Endpoint S}
    {flow : ControlFlow (Endpoint S) (Int × Endpoint S)} (h : PassStep N w flow)
    (hw : w.Starting ∨ w.Processing) : FlowResult w Processing flow := by
  cases h with
  | none_done hphase hnone =>
    obtain hw | hw := hw
    · exact hnone.result hw
    · rw [hw.phase] at hphase
      cases hphase
  | @none_process v flow hphase hnone hprocess =>
    obtain hw | hw := hw
    · obtain ⟨hsince, hc, hv⟩ := hnone.result hw
      exact (hprocess.result hv).prepend hsince hc
    · rw [hw.phase] at hphase
      cases hphase
  | process hphase hprocess =>
    obtain hw | hw := hw
    · rw [hw.phase] at hphase
      cases hphase
    · exact hprocess.result hw
  | spin hphase =>
    obtain hw | hw := hw
    all_goals
      rw [hw.phase] at hphase
      cases hphase

/-- The events of the connection go to the handshake of its own noise connection. -/
structure Attached (w : Endpoint S) : Prop where
  hooked : w.IsHooked
  bound : w.Bound

theorem Keeps.attached {w w' : Endpoint S} (h : Keeps w w') (hw : w.Attached) : w'.Attached :=
  ⟨h.hooked hw.hooked, h.bound hw.bound⟩

theorem SendOutcome.attached {N : NoiseC S} {b : Buf} {w : Endpoint S}
    {flow : ControlFlow (Endpoint S) (Int × Endpoint S)} (h : SendOutcome N b w flow)
    (hw : w.Attached) : (flowState flow).Attached := by
  cases h with
  | refused hframe _ | blocked hframe _ _ _ _ | wait hframe _ _ _ _ _ | go_on hframe _ _ _ _ =>
    exact hframe.keeps.1.attached hw

theorem WriteFrame.attached {w w' : Endpoint S} (h : WriteFrame w w') (hw : w.Attached) :
    w'.Attached := by
  refine ⟨⟨?_, ?_⟩, ?_⟩
  · rw [h.c]
    exact hw.hooked.read
  · rw [h.c]
    exact hw.hooked.write
  · rw [Bound, h.nc, h.c]
    exact hw.bound

theorem InitFrame.attached {w w' : Endpoint S} (h : InitFrame w w') (hw : w.Attached) :
    w'.Attached := by
  refine ⟨⟨?_, ?_⟩, ?_⟩
  · rw [h.c]
    exact hw.hooked.read
  · rw [h.c]
    exact hw.hooked.write
  · rw [Bound, h.nc, h.c]
    exact hw.bound

theorem ProcessStep.attached {N : NoiseC S} {w : Endpoint S}
    {flow : ControlFlow (Endpoint S) (Int × Endpoint S)} (h : ProcessStep N w flow)
    (hw : w.Attached) : (flowState flow).Attached := by
  cases h with
  | write_failed _ _ hmsg _ => exact (write_message_cases hmsg).1.attached hw
  | write_new _ _ hmsg =>
    exact (send_action_cases N _ _).attached ((write_message_cases hmsg).1.attached hw)
  | write_old _ _ _ => exact (send_action_cases N _ w).attached hw
  | read_stopped _ hsteps _ | read_done _ hsteps _ =>
    exact ((w.reads_setLast 0).keeps.trans hsteps.keeps).attached hw
  | split _ =>
    unfold split_action
    dsimp only
    split_ifs
    all_goals exact ⟨⟨hw.hooked.read, hw.hooked.write⟩, hw.bound⟩
  | failed => exact hw

theorem StartOutcome.attached {N : NoiseC S} {w : Endpoint S}
    {flow : ControlFlow (Endpoint S) (Int × Endpoint S)} (h : StartOutcome N w flow)
    (hw : w.Attached) : (flowState flow).Attached := by
  cases h with
  | failed hframe =>
    have hv := hframe.attached hw
    exact ⟨⟨hv.hooked.read, hv.hooked.write⟩, hv.bound⟩
  | @started v hframe _ =>
    have hv := hframe.attached hw
    refine ⟨⟨hv.hooked.read, hv.hooked.write⟩, ?_⟩
    show w.nc.connection = v.c.id
    rw [hframe.c]
    exact hw.bound

theorem NoneStep.attached {N : NoiseC S} {w : Endpoint S}
    {flow : ControlFlow (Endpoint S) (Int × Endpoint S)} (h : NoneStep N w flow)
    (hw : w.Attached) : (flowState flow).Attached := by
  cases h with
  | client _ hstart => exact hstart.attached hw
  | neg_stopped _ hneg _ => exact hneg.frame.reads.keeps.attached hw
  | version _ hneg _ _ _ _ hreply =>
    have hr := hneg.frame.reads.keeps.attached hw
    have hframe := (version_error_cases hreply).1
    exact ⟨hframe.hooked hr.hooked, hframe.bound hr.bound⟩
  | header _ hneg _ _ _ _ hstart =>
    have hr := hneg.frame.reads.keeps.attached hw
    exact hstart.attached ⟨⟨hr.hooked.read, hr.hooked.write⟩, hr.bound⟩

theorem PassStep.attached {N : NoiseC S} {w : Endpoint S}
    {flow : ControlFlow (Endpoint S) (Int × Endpoint S)} (h : PassStep N w flow)
    (hw : w.Attached) : (flowState flow).Attached := by
  cases h with
  | none_done _ hnone => exact hnone.attached hw
  | none_process _ hnone hprocess => exact hprocess.attached (hnone.attached hw)
  | process _ hprocess => exact hprocess.attached hw
  | spin _ => exact hw

/-- Every later call leaves the connection attached. -/
theorem do_handshake_process_attached {N : NoiseC S} {fuel : Nat} {w : Endpoint S}
    {r : Int × Endpoint S} (hw : w.Attached) (h : w.do_handshake_process N fuel = ok r) :
    r.2.Attached := by
  refine loop_invariant Attached (fun r => r.2.Attached) ?_ ?_ hw h
  · intro v u hv hbody
    exact (do_handshake_process_body_cases hbody).attached hv
  · intro v r hv hbody
    exact (do_handshake_process_body_cases hbody).attached hv

/-- The first call of a server's handshake. -/
theorem do_handshake_process_result {N : NoiseC S} {fuel : Nat} {w : Endpoint S}
    {r : Int × Endpoint S} (hw : w.Starting) (h : w.do_handshake_process N fuel = ok r) :
    CallResult w r := by
  refine loop_invariant
    (fun v => (v.Starting ∨ v.Processing) ∧ Since false w v ∧ (w.Bound → v.Bound))
    (CallResult w) ?_ ?_ ⟨.inl hw, since_of_trace rfl, fun h => h⟩ h
  · rintro v u ⟨hv, hsince, hc⟩ hbody
    obtain ⟨hsince', hc', hu⟩ := (do_handshake_process_body_cases hbody).result hv
    exact ⟨.inr hu, hsince.next hsince', fun hw => hc' (hc hw)⟩
  · rintro v r ⟨hv, hsince, hc⟩ hbody
    have hresult : FlowResult v Processing (.done r) :=
      (do_handshake_process_body_cases hbody).result hv
    exact CallResult.prepend hresult hsince hc

end Endpoint

end ngx_nsoc
