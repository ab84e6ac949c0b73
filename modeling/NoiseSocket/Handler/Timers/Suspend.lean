import NoiseSocket.Handler.Timers

open Exec Exec.Result

namespace ngx_nsoc

variable {S : Type}

/-- Whether the first byte of a length has been saved. -/
def SizeField.saved : SizeField → Bool
  | .first _ => true
  | _ => false

theorem SizeField.saved_of_first {f : SizeField} {b0 : UInt8} (h : f = .first b0) :
    f.saved = true := by
  rw [h]
  rfl

namespace Endpoint

/-- In the third message, a saved byte of the noise length comes behind a
negotiation part without data. -/
def Anchored (w : Endpoint S) : Prop :=
  w.nc.noise_msg.saved = true → w.nc.msg_num = NGX_NSOC_3MSG → w.nc.neg_data = .known 0

/-- Nothing is pending that a timer would have to guard. -/
structure Calm (w : Endpoint S) : Prop where
  eof : w.c.read.eof = false
  neg : w.nc.neg_data.saved = false
  msg : w.nc.noise_msg.saved = false

/-- What holds at the start of every pass of `ngx_nsoc_do_handshake_process`. -/
structure Guard (w : Endpoint S) : Prop where
  eof : w.c.read.eof = true → w.Armed ∧ w.nc.last = NOISE_ACTION_READ_MESSAGE
  neg : w.nc.neg_data.saved = true → w.Armed ∧ w.nc.last = NOISE_ACTION_READ_MESSAGE
  msg : w.nc.noise_msg.saved = true → w.Armed ∧ w.nc.last = NOISE_ACTION_READ_MESSAGE
  anchored : w.Anchored
  none_msg : w.nc.handshake_phase = .none_phase → w.nc.noise_msg.saved = false
  none_client : w.nc.handshake_phase = .none_phase → w.nc.noise_role = .client → w.Calm

theorem Calm.guard {w : Endpoint S} (h : w.Calm) : w.Guard :=
  ⟨by simp [h.eof], by simp [h.neg], by simp [h.msg], by simp [Anchored, h.msg],
    fun _ => h.msg, fun _ _ => h⟩

/-- A guarded connection that is not in the middle of a read is calm. -/
theorem Guard.calm {w : Endpoint S} (h : w.Guard)
    (hlast : w.nc.last ≠ NOISE_ACTION_READ_MESSAGE) : w.Calm := by
  refine ⟨?_, ?_, ?_⟩
  · by_contra heof
    exact hlast (h.eof (by simpa using heof)).2
  · by_contra hneg
    exact hlast (h.neg (by simpa using hneg)).2
  · by_contra hmsg
    exact hlast (h.msg (by simpa using hmsg)).2

theorem Guard.neg_watched {w : Endpoint S} (h : w.Guard) : w.FieldWatched .neg_data :=
  .inr ⟨fun heof => (h.eof heof).1, fun _ hb0 => (h.neg (SizeField.saved_of_first hb0)).1⟩

/-- The preconditions of receiving a message, in a state without a cut. -/
structure ReadGuard (w : Endpoint S) : Prop where
  eof : w.c.read.eof = true → w.Armed
  neg : w.nc.neg_data.saved = true → w.Armed
  msg : w.nc.noise_msg.saved = true → w.Armed
  anchored : w.Anchored

theorem ReadGuard.neg_watched {w : Endpoint S} (h : w.ReadGuard) : w.FieldWatched .neg_data :=
  .inr ⟨h.eof, fun _ hb0 => h.neg (SizeField.saved_of_first hb0)⟩

theorem Rereads.armed {k : Nat} {w : Endpoint S} {e : ReadExit S} (h : Rereads k w e)
    (hw : w.Watched) {n : Int} {v : Endpoint S} (he : e = .leave n v) (hn : n = NGX_AGAIN) :
    v.Cut ∨ v.Armed := by
  induction h with
  | stop hneg =>
    cases he
    exact armed_of_read_part (.inl rfl) hw hn
  | status hge => cases he
  | more hge hrest ih => exact ih (watched_of_read_part hw hge) he

/-- The negotiation part suspends with a timer. -/
theorem GateOutcome.armed {w v : Endpoint S} {n : Int} (h : GateOutcome w (.leave n v))
    (hw : w.ReadGuard) (hn : n = NGX_AGAIN) : (v.Cut ∨ v.Armed) ∧ v.Anchored := by
  generalize he : ReadExit.leave n v = e at h
  cases h with
  | first _ | second _ _ _ _ | third _ _ _ =>
    cases he
    simp at hn
  | unknown _ => cases he
  | @stopped r hnum hsteps hneg =>
    cases he
    refine ⟨armed_of_negSteps hsteps hw.neg_watched hn, ?_⟩
    intro hsaved hthree
    rw [hsteps.frame.msg_num] at hthree
    have hmsg : r.2.nc.noise_msg = w.nc.noise_msg := hsteps.frame.other .noise_msg (by simp)
    -- with a saved byte of the noise length there is nothing to stop at
    have hzero := hw.anchored (hmsg ▸ hsaved) hthree
    cases hsteps with
    | known k hk hr =>
      obtain rfl : k = 0 := by simpa [hzero] using hk.symm
      rw [hr, read_part_zero] at hneg
      simp at hneg
    | again _ _ hsize | error _ _ hsize | mismatch _ hsize | accepted _ hsize =>
      simp [hzero, SizeField.incomplete] at hsize
  | reread hnum hk hneg hrest =>
    refine ⟨hrest.armed hw.neg_watched.watched he.symm hn, ?_⟩
    intro _ hthree
    have hframe := hrest.frame.msg_num
    rw [← he] at hframe
    have hframe : v.nc.msg_num = w.nc.msg_num := hframe
    rw [hframe, hnum] at hthree
    simp at hthree

/-- Behind the negotiation part the noise part starts out guarded. -/
theorem GateOutcome.watched {w v : Endpoint S} {n : Int} (h : GateOutcome w (.leave n v))
    (hw : w.ReadGuard) (hn : 0 ≤ n) :
    v.FieldWatched .noise_msg ∧ (v.nc.msg_num = NGX_NSOC_3MSG → v.nc.neg_data = .known 0) := by
  generalize he : ReadExit.leave n v = e at h
  cases h with
  | first hnum =>
    cases he
    refine ⟨.inr ⟨hw.eof, fun _ hb0 => hw.msg (SizeField.saved_of_first hb0)⟩, ?_⟩
    simp [setMsgNum]
  | @stopped r hnum hsteps hneg =>
    cases he
    omega
  | @second r hnum hsteps hge hzero =>
    cases he
    have hmsg : r.2.nc.noise_msg = w.nc.noise_msg := hsteps.frame.other .noise_msg (by simp)
    refine ⟨?_, fun _ => hzero⟩
    rcases watched_of_negSteps hsteps hw.neg_watched hge with hcut | heof
    · exact .inl (hcut.of_trace rfl)
    · refine .inr ⟨heof, ?_⟩
      intro b0 hb0
      have hb0 : r.2.nc.noise_msg = .first b0 := hb0
      exact timers_of_negSteps hsteps hge hzero
        (hw.msg (SizeField.saved_of_first (hmsg.symm.trans hb0)))
  | @third r hnum hsteps hge =>
    cases he
    have hmsg : r.2.nc.noise_msg = w.nc.noise_msg := hsteps.frame.other .noise_msg (by simp)
    refine ⟨?_, by simp [setMsgNum]⟩
    rcases watched_of_negSteps hsteps hw.neg_watched hge with hcut | heof
    · exact .inl (hcut.of_trace rfl)
    · refine .inr ⟨heof, ?_⟩
      intro b0 hb0
      have hb0 : r.2.nc.noise_msg = .first b0 := hb0
      have hsaved := SizeField.saved_of_first (hmsg.symm.trans hb0)
      have hzero := hw.anchored hsaved hnum
      rcases hsteps.known_of_nonneg hge with ⟨k, hk, -, hk'⟩ | ⟨hinc, -⟩
      · rw [hzero] at hk
        cases hk
        exact timers_of_negSteps hsteps hge hk' (hw.msg hsaved)
      · simp [hzero, SizeField.incomplete] at hinc
  | unknown _ => cases he
  | reread hnum hk hneg hrest =>
    exfalso
    clear hneg hnum hw
    induction hrest with
    | stop hneg =>
      cases he
      omega
    | status => cases he
    | more _ _ ih => exact ih he

/-- A noise message that was received leaves the read event without end of file. -/
theorem MsgSteps.eof {w : Endpoint S} {r : Int × Endpoint S} {b : Buf} (h : MsgSteps w r)
    (hn : 0 ≤ r.1) (hnone : w.nc.buf = none) (hbuf : r.2.nc.buf = some b) :
    r.2.c.read.eof = false := by
  cases h with
  | known size hsize hr =>
    rcases Nat.eq_zero_or_pos size with rfl | hpos
    · rw [hr, read_part_zero, hnone] at hbuf
      cases hbuf
    · rw [hr] at hn ⊢
      exact eof_of_read_part hpos hn
  | again v saved hsize hlen htaken hr =>
    rcases v.read_again_cases with ⟨-, hcode⟩ | ⟨hcode, -⟩
    all_goals simp [hr, hcode] at hn
  | error v saved hsize hlen htaken hr => simp [hr] at hn
  | accepted v size hsize hlen hcode hknown hr =>
    rcases Nat.eq_zero_or_pos size with rfl | hpos
    · rw [hr, read_part_zero] at hbuf
      have hkept : v.nc.buf = w.nc.buf := hlen.frame.buf
      rw [hkept, hnone] at hbuf
      cases hbuf
    · rw [hr] at hn ⊢
      exact eof_of_read_part hpos hn

/-- Receiving a message suspends with a timer. -/
theorem MessageSteps.armed {N : NoiseC S} {w : Endpoint S} {r : Int × Endpoint S}
    (h : MessageSteps N w r) (hw : w.ReadGuard) (hn : r.1 = NGX_AGAIN) :
    (r.2.Cut ∨ r.2.Armed) ∧ r.2.Anchored ∧ r.2.nc.last = NOISE_ACTION_READ_MESSAGE ∧
      r.2.nc.handshake_phase = w.nc.handshake_phase := by
  cases h with
  | gate_ret n v hgate hr =>
    have hcode := hgate.ret_error
    simp [hr, hcode] at hn
  | gate_stop n v hgate hneg hr =>
    rw [hr] at hn ⊢
    obtain ⟨harmed, hanch⟩ := hgate.armed hw hn
    refine ⟨?_, hanch, ?_, ?_⟩
    · rcases harmed with hcut | harmed
      · exact .inl (hcut.of_trace rfl)
      · exact .inr harmed
    · exact hgate.last hn
    · exact hgate.reads.handshake_phase
  | msg_stop n v hgate hge hmsg hlt =>
    obtain ⟨hwatched, hzero⟩ := hgate.watched hw hge
    have hframe := hmsg.frame
    refine ⟨armed_of_msgSteps hmsg hwatched hn, ?_, hmsg.last hn, ?_⟩
    · intro _ hthree
      rw [hframe.msg_num] at hthree
      have hneg : r.2.nc.neg_data = v.nc.neg_data := hframe.other .neg_data (by simp)
      rw [hneg]
      exact hzero hthree
    · exact (hgate.reads.trans ((reads_setBuf _ _).trans hframe.reads)).handshake_phase
  | rejected n v q b code noise hgate hge hmsg hq hbuf hcall hcode hr => simp [hr] at hn
  | accepted n v q b noise hgate hge hmsg hq hbuf hcall hr => simp [hr] at hn

/-- A message that was received leaves nothing pending. -/
theorem MessageSteps.calm {N : NoiseC S} {w : Endpoint S} {r : Int × Endpoint S}
    (h : MessageSteps N w r) (hn : r.1 = NGX_OK) :
    r.2.Calm ∧ r.2.nc.handshake_phase = w.nc.handshake_phase := by
  cases h with
  | gate_ret n v hgate hr =>
    have hcode := hgate.ret_error
    simp [hr, hcode] at hn
  | gate_stop n v hgate hneg hr =>
    rw [hr] at hn
    simp only [NGX_OK] at hn
    omega
  | msg_stop n v hgate hge hmsg hlt =>
    simp only [NGX_OK] at hn
    omega
  | rejected n v q b code noise hgate hge hmsg hq hbuf hcall hcode hr => simp [hr] at hn
  | accepted n v q b noise hgate hge hmsg hq hbuf hcall hr =>
    rw [hr]
    refine ⟨⟨hmsg.eof hq rfl hbuf, rfl, rfl⟩, ?_⟩
    exact (hgate.reads.trans ((reads_setBuf _ _).trans hmsg.frame.reads)).handshake_phase

end Endpoint

end ngx_nsoc
