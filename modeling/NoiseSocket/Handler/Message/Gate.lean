import NoiseSocket.Handler.Message.Part

open Exec Exec.Result

namespace ngx_nsoc

variable {S : Type}

namespace Endpoint

/-- A negotiation part that was received is known afterwards. Unless its length
was known before, it is the expected one. -/
theorem NegSteps.known_of_nonneg {true_len : Nat} {w : Endpoint S} {r : Int × Endpoint S}
    (h : NegSteps true_len w r) (hn : 0 ≤ r.1) :
    (∃ k, w.nc.neg_data = .known k ∧ r = w.read_part (.neg_data k) k ∧
        r.2.nc.neg_data = .known k) ∨
      w.nc.neg_data.incomplete = true ∧ r.2.nc.neg_data = .known true_len := by
  cases h with
  | known k hsize hr =>
    refine .inl ⟨k, hsize, hr, ?_⟩
    rw [hr, (read_part_cases _ _ _).1.neg_data, hsize]
  | again v saved hsize hlen htaken hr =>
    rcases v.read_again_cases with ⟨-, hcode⟩ | ⟨hcode, -⟩
    all_goals simp [hr, hcode] at hn
  | error v saved hsize hlen htaken hr => simp [hr] at hn
  | mismatch v hsize hlen hcode hne hr => simp [hr] at hn
  | accepted v hsize hlen hcode hknown hr =>
    refine .inr ⟨hsize, ?_⟩
    rw [hr, (read_part_cases _ _ _).1.neg_data]
    exact hlen.size.trans hknown

/-- The loop that receives the negotiation part of the second message again and
again, because its length `k` is not the expected one. -/
inductive Rereads (k : Nat) : Endpoint S → ReadExit S → Prop where
  | stop {w : Endpoint S} (hneg : (w.read_part (.neg_data k) k).1 < 0) :
      Rereads k w (.leave (w.read_part (.neg_data k) k).1 (w.read_part (.neg_data k) k).2)
  | status {w : Endpoint S} (hn : 0 ≤ (w.read_part (.neg_data k) k).1) :
      Rereads k w (.ret NGX_ERROR (w.read_part (.neg_data k) k).2)
  | more {w : Endpoint S} {e : ReadExit S} (hn : 0 ≤ (w.read_part (.neg_data k) k).1)
      (hrest : Rereads k (w.read_part (.neg_data k) k).2 e) : Rereads k w e

/-- The state in which the loop is left. -/
def ReadExit.state {S : Type} : ReadExit S → Endpoint S
  | .leave _ w => w
  | .ret _ w => w

theorem Rereads.frame {k : Nat} {w : Endpoint S} {e : ReadExit S} (h : Rereads k w e) :
    PartFrame w (ReadExit.state e) := by
  induction h with
  | stop | status => exact (read_part_cases _ _ _).1
  | more _ _ ih => exact (read_part_cases _ _ _).1.trans ih

/-- Everything the loop of `ngx_nsoc_handshake_start_action_read_message` can do
if it returns. -/
inductive GateOutcome (w : Endpoint S) : ReadExit S → Prop where
  | first (hnum : w.nc.msg_num = NGX_NSOC_1MSG) :
      GateOutcome w (.leave NGX_OK (w.setMsgNum NGX_NSOC_2MSG_OK))
  | stopped {r : Int × Endpoint S}
      (hnum : w.nc.msg_num = NGX_NSOC_2MSG_OK ∨ w.nc.msg_num = NGX_NSOC_3MSG)
      (hsteps : NegSteps 0 w r) (hneg : r.1 < 0) : GateOutcome w (.leave r.1 r.2)
  | second {r : Int × Endpoint S} (hnum : w.nc.msg_num = NGX_NSOC_2MSG_OK)
      (hsteps : NegSteps 0 w r) (hn : 0 ≤ r.1) (hzero : r.2.nc.neg_data = .known 0) :
      GateOutcome w (.leave NGX_OK (r.2.setMsgNum NGX_NSOC_3MSG))
  | third {r : Int × Endpoint S} (hnum : w.nc.msg_num = NGX_NSOC_3MSG)
      (hsteps : NegSteps 0 w r) (hn : 0 ≤ r.1) :
      GateOutcome w (.leave NGX_OK (r.2.setMsgNum NGX_NSOC_1MSG))
  | reread {k : Nat} {e : ReadExit S} (hnum : w.nc.msg_num = NGX_NSOC_2MSG_OK) (hk : k ≠ 0)
      (hneg : w.nc.neg_data = .known k) (hrest : Rereads k w e) : GateOutcome w e
  | unknown (hnum : w.nc.msg_num ≠ NGX_NSOC_1MSG ∧ w.nc.msg_num ≠ NGX_NSOC_2MSG_OK ∧
      w.nc.msg_num ≠ NGX_NSOC_3MSG) : GateOutcome w (.ret NGX_ERROR w)

section

variable {fuel : Nat} {w : Endpoint S}

/-- The read of one pass. -/
def gate_read (fuel size : Nat) (w : Endpoint S) :
    Result (ControlFlow (Option Nat × Endpoint S) (ReadExit S)) := do
  let (n, w) ← w.read_negotiation fuel size
  if n < 0 then ok (.done (.leave n w)) else ok (.cont (some size, w))

theorem read_message_body_first (size : Option Nat) (h : w.nc.msg_num = NGX_NSOC_1MSG) :
    read_message_body fuel (size, w) =
      ok (.done (.leave NGX_OK (w.setMsgNum NGX_NSOC_2MSG_OK))) := by
  simp [read_message_body, h]

theorem read_message_body_read
    (h : w.nc.msg_num = NGX_NSOC_2MSG_OK ∨ w.nc.msg_num = NGX_NSOC_3MSG) :
    read_message_body fuel (none, w) = gate_read fuel 0 w := by
  rcases h with h | h <;> simp [read_message_body, h, gate_read]

theorem read_message_body_second_ok {size : Nat} (h : w.nc.msg_num = NGX_NSOC_2MSG_OK)
    (hneg : w.nc.neg_data = .known 0) :
    read_message_body fuel (some size, w) =
      ok (.done (.leave NGX_OK (w.setMsgNum NGX_NSOC_3MSG))) := by
  simp [read_message_body, h, hneg, SizeField.recv_size]

theorem read_message_body_third {size : Nat} (h : w.nc.msg_num = NGX_NSOC_3MSG) :
    read_message_body fuel (some size, w) =
      ok (.done (.leave NGX_OK (w.setMsgNum NGX_NSOC_1MSG))) := by
  simp [read_message_body, h]

theorem read_message_body_status {k : Nat} (size : Nat) (h : w.nc.msg_num = NGX_NSOC_2MSG_OK)
    (hk : k ≠ 0) (hneg : w.nc.neg_data = .known k) :
    (∀ fuel, read_message_body fuel (some size, w) = fault) ∨
      (∀ fuel, read_message_body fuel (some size, w) = ok (.done (.ret NGX_ERROR w))) ∨
      ∀ fuel, read_message_body fuel (some size, w) = gate_read fuel size w := by
  simp only [read_message_body, h, hneg, SizeField.recv_size]
  rcases hstatus : (w.nc.buf.bind fun b => (b.bytes.drop b.pos)[2]?) with _ | status
  · simp [hk]
  · by_cases hbad : status = 0xFF ∨ status = 1
    · simp [hk, hbad]
    · simp [hk, hbad, gate_read]

theorem read_message_body_unknown (size : Option Nat)
    (h : w.nc.msg_num ≠ NGX_NSOC_1MSG ∧ w.nc.msg_num ≠ NGX_NSOC_2MSG_OK ∧
      w.nc.msg_num ≠ NGX_NSOC_3MSG) :
    read_message_body fuel (size, w) = ok (.done (.ret NGX_ERROR w)) := by
  obtain ⟨h1, h2, h3⟩ := h
  simp [read_message_body, h1, h2, h3]

end

/-- One pass that reads, if it returns. -/
theorem gate_read_cases {fuel size : Nat} {w : Endpoint S}
    {flow : ControlFlow (Option Nat × Endpoint S) (ReadExit S)}
    (h : gate_read fuel size w = ok flow) :
    ∃ r, NegSteps size w r ∧
      (r.1 < 0 ∧ flow = .done (.leave r.1 r.2) ∨ 0 ≤ r.1 ∧ flow = .cont (some size, r.2)) := by
  simp only [gate_read, bind_eq_ok_iff] at h
  obtain ⟨r, hread, hflow⟩ := h
  refine ⟨r, read_negotiation_cases hread, ?_⟩
  split_ifs at hflow with hneg
  · exact .inl ⟨hneg, by simpa using hflow.symm⟩
  · exact .inr ⟨by omega, by simpa using hflow.symm⟩

/-- Behind a negotiation part of the wrong length the loop only reads more of it. -/
theorem rereads_of_loop {k n size fuel : Nat} {w v : Endpoint S} {e : ReadExit S}
    (hnum : v.nc.msg_num = NGX_NSOC_2MSG_OK) (hk : k ≠ 0) (hneg : v.nc.neg_data = .known k)
    (hv : v = (w.read_part (.neg_data k) k).2) (hn : 0 ≤ (w.read_part (.neg_data k) k).1)
    (h : loop (read_message_body fuel) n (some size, v) = ok e) : Rereads k w e := by
  induction n generalizing w v with
  | zero => cases h
  | succ n ih =>
    rw [loop_succ, bind_eq_ok_iff] at h
    obtain ⟨flow, hbody, hrest⟩ := h
    rcases read_message_body_status size hnum hk hneg with hfault | hret | hread
    · rw [hfault] at hbody
      cases hbody
    · rw [hret] at hbody
      cases hbody
      cases hrest
      rw [hv]
      exact .status hn
    · rw [hread] at hbody
      obtain ⟨r, hsteps, ⟨hlt, rfl⟩ | ⟨hge, rfl⟩⟩ := gate_read_cases hbody
      all_goals
        have hr : r = v.read_part (.neg_data k) k := by
          cases hsteps with
          | known k' hsize hr =>
            obtain rfl : k = k' := by simpa [hneg] using hsize
            exact hr
          | again _ _ hsize | error _ _ hsize | mismatch _ hsize | accepted _ hsize =>
            simp [hneg, SizeField.incomplete] at hsize
      · cases hrest
        refine .more hn ?_
        rw [← hv, hr]
        exact .stop (by rwa [← hr])
      · refine .more hn ?_
        rw [← hv]
        refine ih (hsteps.frame.msg_num.trans hnum) ?_ (by rw [hr]) (by rwa [← hr]) hrest
        rw [hr, (read_part_cases _ _ _).1.neg_data, hneg]

theorem read_message_gate_cases {n fuel : Nat} {w : Endpoint S} {e : ReadExit S}
    (h : loop (read_message_body fuel) n (none, w) = ok e) : GateOutcome w e := by
  obtain _ | n := n
  · cases h
  rw [loop_succ, bind_eq_ok_iff] at h
  obtain ⟨flow, hbody, hrest⟩ := h
  by_cases h1 : w.nc.msg_num = NGX_NSOC_1MSG
  · rw [read_message_body_first _ h1] at hbody
    cases hbody
    cases hrest
    exact .first h1
  by_cases hnum : w.nc.msg_num = NGX_NSOC_2MSG_OK ∨ w.nc.msg_num = NGX_NSOC_3MSG
  · rw [read_message_body_read hnum] at hbody
    obtain ⟨r, hsteps, ⟨hlt, rfl⟩ | ⟨hge, rfl⟩⟩ := gate_read_cases hbody
    · cases hrest
      exact .stopped hnum hsteps hlt
    dsimp only at hrest
    have hnum' := hsteps.frame.msg_num
    rcases hnum with h2 | h3
    · rcases hsteps.known_of_nonneg hge with ⟨k, hneg, hr, hk⟩ | ⟨-, hzero⟩
      · by_cases hzero : k = 0
        · subst hzero
          obtain _ | n := n
          · cases hrest
          rw [loop_succ, read_message_body_second_ok (hnum'.trans h2) hk] at hrest
          cases hrest
          exact .second h2 hsteps hge hk
        · refine .reread h2 hzero hneg (rereads_of_loop (hnum'.trans h2) hzero hk (by rw [hr]) ?_ hrest)
          rwa [← hr]
      · obtain _ | n := n
        · cases hrest
        rw [loop_succ, read_message_body_second_ok (hnum'.trans h2) hzero] at hrest
        cases hrest
        exact .second h2 hsteps hge hzero
    · obtain _ | n := n
      · cases hrest
      rw [loop_succ, read_message_body_third (hnum'.trans h3)] at hrest
      cases hrest
      exact .third h3 hsteps hge
  · have hother : w.nc.msg_num ≠ NGX_NSOC_1MSG ∧ w.nc.msg_num ≠ NGX_NSOC_2MSG_OK ∧
        w.nc.msg_num ≠ NGX_NSOC_3MSG := ⟨h1, fun h2 => hnum (.inl h2), fun h3 => hnum (.inr h3)⟩
    rw [read_message_body_unknown _ hother] at hbody
    cases hbody
    cases hrest
    exact .unknown hother

theorem GateOutcome.reads {w : Endpoint S} {e : ReadExit S} (h : GateOutcome w e) :
    Reads w (ReadExit.state e) := by
  cases h with
  | first _ => exact w.reads_setMsgNum _
  | stopped _ hsteps _ => exact hsteps.frame.reads
  | second _ hsteps _ _ | third _ hsteps _ => exact hsteps.frame.reads.trans (reads_setMsgNum _ _)
  | reread _ _ _ hrest => exact hrest.frame.reads
  | unknown _ => exact .refl w

theorem Rereads.last {k : Nat} {w : Endpoint S} {e : ReadExit S} (h : Rereads k w e)
    {n : Int} {v : Endpoint S} (he : e = .leave n v) (hn : n = NGX_AGAIN) :
    v.nc.last = NOISE_ACTION_READ_MESSAGE := by
  induction h with
  | stop _ =>
    cases he
    exact last_of_read_part hn
  | status _ => cases he
  | more _ _ ih => exact ih he

theorem GateOutcome.last {w v : Endpoint S} {n : Int} (h : GateOutcome w (.leave n v))
    (hn : n = NGX_AGAIN) : v.nc.last = NOISE_ACTION_READ_MESSAGE := by
  generalize he : ReadExit.leave n v = e at h
  cases h with
  | first _ | second _ _ _ _ | third _ _ _ =>
    cases he
    simp at hn
  | stopped _ hsteps _ =>
    cases he
    exact hsteps.last hn
  | reread _ _ _ hrest => exact hrest.last he.symm hn
  | unknown _ => cases he

/-- The function returns from inside the loop only with an error. -/
theorem GateOutcome.ret_error {w v : Endpoint S} {n : Int} (h : GateOutcome w (.ret n v)) :
    n = NGX_ERROR := by
  generalize he : ReadExit.ret n v = e at h
  cases h with
  | first _ | second _ _ _ _ | third _ _ _ | stopped _ _ _ => cases he
  | unknown _ =>
    cases he
    rfl
  | reread hnum hk hneg hrest =>
    clear hneg hnum
    induction hrest with
    | stop _ => cases he
    | status _ =>
      cases he
      rfl
    | more _ _ ih => exact ih he

end Endpoint

end ngx_nsoc
