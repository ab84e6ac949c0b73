import NoiseSocket.Handler.Handshake.NoFault

open Exec Exec.Result

namespace ngx_nsoc

variable {S : Type}

namespace Endpoint

/-- The first message at a server, which has received the header in front of it. -/
def AtOpening (w : Endpoint S) : Prop :=
  w.nc.msg_num = NGX_NSOC_1MSG ∧ ∃ k, w.nc.neg_data = .known (k + 1)

/-- The length of the header is still there, and is not the length of the second message: what
comes in is read for negotiation data, and never as a noise message. -/
def Barred (w : Endpoint S) : Prop :=
  w.nc.msg_num = NGX_NSOC_2MSG_OK ∧ ∃ k, w.nc.neg_data = .known (k + 1)

/-- Nothing is read for negotiation data before the noise message is resumed. -/
def Undisturbed (w : Endpoint S) : Prop :=
  w.nc.neg_data = .known 0 ∨ w.nc.neg_data.incomplete = false ∧ w.nc.msg_num ≠ NGX_NSOC_3MSG

/-- A message is to be received, or to be received on. -/
inductive Entering (w : Endpoint S) : Prop where
  | between (hsize : w.nc.noise_msg = .unset)
  | inside (hquiet : w.Undisturbed) (hmessage : w.InMessage)
  | barred (hbarred : w.Barred)

/-- The next message has a format of its own, and its noise part comes in undivided. Where the first
message of a server does not, it is never given to noise-c. -/
structure Whole (w : Endpoint S) : Prop where
  format : w.nc.msg_num = NGX_NSOC_1MSG → w.nc.neg_data.incomplete = false
  message : ∀ rx, w.gate_rx = some rx → Undivided w.AtOpening w.nc.noise_msg rx

section

variable {w v : Endpoint S} {r : Int × Endpoint S} {n : Int}

theorem NegSteps.of_zero {true_len : Nat} (h : NegSteps true_len w r)
    (hzero : w.nc.neg_data = .known 0) : r = (0, w) := by
  cases h with
  | known size hsize hr =>
    rw [hzero] at hsize
    cases hsize
    rw [hr, read_part_zero]
  | again _ _ hsize | error _ _ hsize | mismatch _ hsize | accepted _ hsize =>
    rw [hzero] at hsize
    cases hsize

theorem NegSteps.of_known {true_len k : Nat} (h : NegSteps true_len w r)
    (hk : w.nc.neg_data = .known k) : r.2.nc.neg_data = .known k := by
  cases h with
  | known size hsize hr => rw [hr, (read_part_cases _ _ _).1.neg_data, hk]
  | again _ _ hsize | error _ _ hsize | mismatch _ hsize | accepted _ hsize =>
    rw [hk] at hsize
    cases hsize

theorem known_of_undisturbed (h : w.Undisturbed) : w.nc.neg_data = .known 0 ∨
    (∃ k, w.nc.neg_data = .known (k + 1)) ∧ w.nc.msg_num ≠ NGX_NSOC_3MSG := by
  obtain hzero | ⟨hinc, hnum⟩ := h
  · exact .inl hzero
  cases hneg : w.nc.neg_data with
  | known k =>
    cases k with
    | zero => exact .inl rfl
    | succ k => exact .inr ⟨⟨k, rfl⟩, hnum⟩
  | unset | first =>
    rw [hneg] at hinc
    cases hinc

theorem Entering.congr (h : w.Entering) (hneg : v.nc.neg_data = w.nc.neg_data)
    (hmsg : v.nc.noise_msg = w.nc.noise_msg) (hnum : v.nc.msg_num = w.nc.msg_num)
    (htaken : taken v.trace = taken w.trace) (heof : v.c.read.eof = w.c.read.eof) : v.Entering := by
  cases h with
  | between hsize => exact .between (hmsg.trans hsize)
  | inside hquiet hmessage =>
    refine .inside ?_ (hmessage.congr hmsg htaken heof)
    rw [Undisturbed, hneg, hnum]
    exact hquiet
  | barred hbarred =>
    refine .barred ?_
    rw [Barred, hneg, hnum]
    exact hbarred

/-- Behind the negotiation part the noise part goes on where it was. -/
theorem GateOutcome.passed (h : GateOutcome w (.leave n v)) (hn : 0 ≤ n) (hw : w.Entering)
    (hformat : w.nc.msg_num = NGX_NSOC_1MSG → w.nc.neg_data.incomplete = false) :
    v.Undisturbed ∧ v.InMessage ∧ (w.AtOpening → v.Barred) := by
  generalize he : ReadExit.leave n v = e at h
  cases h with
  | first hnum =>
    cases he
    refine ⟨.inr ⟨hformat hnum, fun hthree => by cases hthree⟩, ?_, fun hopen => ⟨rfl, hopen.2⟩⟩
    cases hw with
    | between hsize => exact inMessage_of_unset hsize
    | inside _ hmessage => exact hmessage.congr rfl rfl rfl
    | barred hbarred => cases hnum.symm.trans hbarred.1
  | stopped _ _ hneg =>
    cases he
    exact absurd hn (by omega)
  | @second r hnum hsteps hge hzero =>
    cases he
    have hother : ¬ w.AtOpening := fun hopen => by
      rw [AtOpening, hnum] at hopen
      cases hopen.1
    have hnot : ∀ k, w.nc.neg_data ≠ .known (k + 1) := by
      intro k hk
      have hkept := hsteps.of_known hk
      rw [hzero] at hkept
      cases hkept
    refine ⟨.inl hzero, ?_, fun hopen => absurd hopen hother⟩
    cases hw with
    | between hsize => exact inMessage_of_unset ((hsteps.frame.other .noise_msg (by simp)).trans hsize)
    | inside hquiet hmessage =>
      obtain hknown | ⟨⟨k, hk⟩, -⟩ := known_of_undisturbed hquiet
      · obtain rfl := hsteps.of_zero hknown
        exact hmessage.congr rfl rfl rfl
      · exact absurd hk (hnot k)
    | barred hbarred =>
      obtain ⟨-, k, hk⟩ := hbarred
      exact absurd hk (hnot k)
  | @third r hnum hsteps hge =>
    cases he
    have hother : ¬ w.AtOpening := fun hopen => by
      rw [AtOpening, hnum] at hopen
      cases hopen.1
    have hknown : (r.2.setMsgNum NGX_NSOC_1MSG).nc.neg_data.incomplete = false := by
      show r.2.nc.neg_data.incomplete = false
      rcases hsteps.known_of_nonneg hge with ⟨k, -, -, hk⟩ | ⟨-, hk⟩
      · rw [hk]
        rfl
      · rw [hk]
        rfl
    refine ⟨.inr ⟨hknown, fun hthree => by cases hthree⟩, ?_, fun hopen => absurd hopen hother⟩
    cases hw with
    | between hsize => exact inMessage_of_unset ((hsteps.frame.other .noise_msg (by simp)).trans hsize)
    | inside hquiet hmessage =>
      obtain hzero | ⟨-, hnot⟩ := known_of_undisturbed hquiet
      · obtain rfl := hsteps.of_zero hzero
        exact hmessage.congr rfl rfl rfl
      · exact absurd hnum hnot
    | barred hbarred =>
      rw [Barred, hnum] at hbarred
      cases hbarred.1
  | unknown _ => cases he
  | reread hnum hk hneg hrest =>
    have hleave := (GateOutcome.reread hnum hk hneg hrest)
    rw [← he] at hleave
    have hrx := (hleave.rx_of_nonneg hn).1
    rw [gate_rx_of_reread hnum hk hneg] at hrx
    cases hrx

/-- A negotiation part that is not there yet leaves the noise part where it was. -/
theorem GateOutcome.entering (h : GateOutcome w (.leave n v)) (hn : n = NGX_AGAIN)
    (hw : w.Entering) : v.Entering := by
  generalize he : ReadExit.leave n v = e at h
  cases h with
  | first _ | second _ _ _ _ | third _ _ _ =>
    cases he
    cases hn
  | unknown _ => cases he
  | @stopped r hnum hsteps hneg =>
    cases he
    have hbars : ∀ k, w.nc.neg_data = .known (k + 1) → w.nc.msg_num ≠ NGX_NSOC_3MSG →
        r.2.Entering := by
      intro k hk hthree
      refine .barred ⟨?_, k, hsteps.of_known hk⟩
      rw [hsteps.frame.msg_num]
      exact hnum.resolve_right hthree
    cases hw with
    | between hsize => exact .between ((hsteps.frame.other .noise_msg (by simp)).trans hsize)
    | inside hquiet hmessage =>
      obtain hzero | ⟨⟨k, hk⟩, hthree⟩ := known_of_undisturbed hquiet
      · obtain rfl := hsteps.of_zero hzero
        cases hn
      · exact hbars k hk hthree
    | barred hbarred =>
      obtain ⟨htwo, k, hk⟩ := hbarred
      exact hbars k hk (by rw [htwo]; decide)
  | @reread k e hnum hk hneg hrest =>
    subst he
    obtain ⟨k, rfl⟩ := Nat.exists_eq_succ_of_ne_zero hk
    have hframe := hrest.frame
    exact .barred ⟨hframe.msg_num.trans hnum, k, hframe.neg_data.trans hneg⟩

theorem GateOutcome.negKnown (h : GateOutcome w (.leave n v)) (hn : n ≠ NGX_ERROR)
    (hw : w.NegKnown) : v.NegKnown := by
  generalize he : ReadExit.leave n v = e at h
  cases h with
  | first _ =>
    cases he
    exact hw
  | stopped _ hsteps _ =>
    cases he
    exact hsteps.negKnown (.inl rfl) hw hn
  | second _ hsteps hge _ | third _ hsteps hge =>
    cases he
    refine hsteps.negKnown (.inl rfl) hw ?_
    simp only [NGX_ERROR]
    omega
  | unknown _ => cases he
  | reread hnum hk hneg hrest =>
    subst he
    intro k' hk'
    have hkept : v.nc.neg_data = w.nc.neg_data := hrest.frame.neg_data
    exact hw k' (hkept.symm.trans hk')

theorem MsgSteps.atStart (h : MsgSteps w r) (hw : w.AtStart) : r.2.AtStart := by
  cases h with
  | known size hsize hr =>
    rw [hr]
    exact fun b hb => pos_read_part hw hb
  | again v saved hsize hlen htaken hr =>
    rw [hr]
    intro b hb
    rw [(read_again_rests v).1.buf] at hb
    exact hlen.atStart hw b hb
  | error v saved hsize hlen htaken hr =>
    rw [hr]
    exact hlen.atStart hw
  | accepted v size hsize hlen hcode hknown hr =>
    rw [hr]
    exact fun b hb => pos_read_part (hlen.atStart hw) hb

end

end Endpoint

end ngx_nsoc
