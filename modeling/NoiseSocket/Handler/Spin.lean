import NoiseSocket.Handler.Handshake.Phases
import NoiseSocket.Lib.Settle

open Exec Exec.Result

namespace ngx_nsoc

variable {S : Type}

namespace Endpoint

/-!
Where a call goes round without progress, read off the state before the call and
the bytes that are on their way.
-/

/-- The stream behind a negotiation length of zero. -/
def zero_rx (w : Endpoint S) : Option Net.Incoming :=
  match w.nc.neg_data with
  | .known 0 => some w.env.rx
  | .known (_ + 1) => none
  | size =>
    let taken := take_len size w.env.rx
    if taken.1.code = NGX_OK ∧ taken.1.size = .known 0 then some taken.2 else none

/-- The stream at the noise part of the next message, if the negotiation part in
front of it is accepted. -/
def gate_rx (w : Endpoint S) : Option Net.Incoming :=
  if w.nc.msg_num = NGX_NSOC_1MSG then some w.env.rx
  else if w.nc.msg_num = NGX_NSOC_2MSG_OK then w.zero_rx
  else if w.nc.msg_num = NGX_NSOC_3MSG then
    match w.nc.neg_data with
    | .known (k + 1) => (w.part_rx (k + 1)).map Prod.snd
    | _ => w.zero_rx
  else none

/-- Receiving the next message gets to the length of its noise part, of which no
byte was saved, when the peer has closed and at most one byte is left. -/
def ReadSpins (w : Endpoint S) : Prop :=
  ∃ rx, w.gate_rx = some rx ∧ Starves w.nc.noise_msg rx

/-- The handshake starts with a message to receive, and that spins. -/
def StartSpins (N : NoiseC S) (w : Endpoint S) : Prop :=
  ∃ v, ngx_noise_protocol.init_handshake N w = ok (NGX_OK, v) ∧
    N.handshakestate_get_action (N.handshakestate_start v.noise).2 = NOISE_ACTION_READ_MESSAGE ∧
    ReadSpins (w.setBuf none)

/-- The length and the bytes of the first header, and the stream behind it, if
the header comes in by one socket read. -/
def header_rx (w : Endpoint S) : Option (Nat × List UInt8 × Net.Incoming) :=
  match w.nc.neg_data with
  | .known 0 => none
  | .known (k + 1) => (w.part_rx (k + 1)).map fun part => (k + 1, part)
  | size =>
    let taken := take_len size w.env.rx
    if taken.1.code = NGX_OK ∧ taken.1.size = .known NGX_NSOC_1MSG_NEG_DATA_SIZE then
      (part_rx { w with env := { w.env with rx := taken.2 } } NGX_NSOC_1MSG_NEG_DATA_SIZE).map
        fun part => (NGX_NSOC_1MSG_NEG_DATA_SIZE, part)
    else none

/-- The connection behind a first header of `size` bytes. -/
def behind_header (w : Endpoint S) (size : Nat) (first_hdr : FirstHdr) (rx : Net.Incoming) :
    Endpoint S :=
  { w with
    prologue := { w.prologue with header := first_hdr }
    nc := { w.nc with neg_data := .known size }
    env := { w.env with rx, allocs := w.allocs_left } }

/-- The states from which a call of `ngx_nsoc_do_handshake_process` never returns. -/
def Spins (N : NoiseC S) (w : Endpoint S) : Prop :=
  match w.nc.handshake_phase with
  | .end_phase => True
  | .process_phase => w.action N = NOISE_ACTION_READ_MESSAGE ∧ w.ReadSpins
  | .none_phase =>
    match w.nc.noise_role with
    | .client => w.StartSpins N
    | .server => ∃ size bytes rx first_hdr, w.header_rx = some (size, bytes, rx) ∧
        FirstHdr.ofBytes bytes = some first_hdr ∧ first_hdr.version_id = NGX_NSOC_VERSION_ID ∧
        StartSpins N (w.behind_header size first_hdr rx)

section

variable {w : Endpoint S} {r : Int × Endpoint S}

theorem zero_rx_of_incomplete (h : w.nc.neg_data.incomplete) :
    w.zero_rx = if (take_len w.nc.neg_data w.env.rx).1.code = NGX_OK ∧
      (take_len w.nc.neg_data w.env.rx).1.size = .known 0 then
        some (take_len w.nc.neg_data w.env.rx).2 else none := by
  rcases hneg : w.nc.neg_data with _ | b0 | size
  · simp [zero_rx, hneg]
  · simp [zero_rx, hneg]
  · simp [hneg, SizeField.incomplete] at h

/-- The stream behind a negotiation part that was received. -/
theorem NegSteps.rx_of_nonneg (h : NegSteps 0 w r) (hn : 0 ≤ r.1) :
    w.zero_rx = some r.2.env.rx ∨
      ∃ k bytes, w.nc.neg_data = .known (k + 1) ∧ w.part_rx (k + 1) = some (bytes, r.2.env.rx) := by
  cases h with
  | known size hsize hr =>
    rcases size with _ | k
    · left
      rw [hr, read_part_zero]
      simp [zero_rx, hsize]
    · right
      rw [hr] at hn ⊢
      obtain ⟨b, -, hpart, -⟩ := part_rx_of_nonneg (by omega) hn
      exact ⟨k, b.bytes, hsize, hpart⟩
  | again v saved hsize hlen htaken hr =>
    rcases v.read_again_cases with ⟨-, hcode⟩ | ⟨hcode, -⟩
    all_goals simp [hr, hcode] at hn
  | error v saved hsize hlen htaken hr => simp [hr] at hn
  | mismatch v hsize hlen hcode hne hr => simp [hr] at hn
  | accepted v hsize hlen hcode hknown hr =>
    left
    rw [zero_rx_of_incomplete hsize, if_pos ⟨hcode, hknown⟩, hr, read_part_zero]
    exact congrArg some hlen.rx.symm

theorem NegSteps.rx_of_neg (h : NegSteps 0 w r) (hn : r.1 < 0) :
    w.zero_rx = none ∧ ∀ k, w.nc.neg_data = .known (k + 1) → w.part_rx (k + 1) = none := by
  cases h with
  | known size hsize hr =>
    rcases size with _ | k
    · rw [hr, read_part_zero] at hn
      simp at hn
    · refine ⟨by simp [zero_rx, hsize], ?_⟩
      intro k' hk'
      obtain rfl : k = k' := by simpa [hsize] using hk'
      rw [hr] at hn
      exact part_rx_of_neg _ hn
  | again v saved hsize hlen htaken hr =>
    refine ⟨?_, fun k hk => by simp [hk, SizeField.incomplete] at hsize⟩
    simp [zero_rx_of_incomplete hsize, htaken, LenAnswer.code]
  | error v saved hsize hlen htaken hr =>
    refine ⟨?_, fun k hk => by simp [hk, SizeField.incomplete] at hsize⟩
    simp [zero_rx_of_incomplete hsize, htaken, LenAnswer.code]
  | mismatch v hsize hlen hcode hne hr =>
    refine ⟨?_, fun k hk => by simp [hk, SizeField.incomplete] at hsize⟩
    rw [zero_rx_of_incomplete hsize, if_neg]
    rintro ⟨-, hzero⟩
    exact hne (by rw [hzero]; rfl)
  | accepted v hsize hlen hcode hknown hr =>
    rw [hr, read_part_zero] at hn
    simp at hn

/-- A gate that was passed stands where `gate_rx` says. -/
theorem GateOutcome.rx_of_nonneg {v : Endpoint S} {n : Int} (h : GateOutcome w (.leave n v))
    (hn : 0 ≤ n) : w.gate_rx = some v.env.rx ∧ v.nc.noise_msg = w.nc.noise_msg := by
  generalize he : ReadExit.leave n v = e at h
  cases h with
  | first hnum =>
    cases he
    exact ⟨by simp [gate_rx, hnum]; rfl, rfl⟩
  | stopped _ _ hneg =>
    cases he
    omega
  | @second r hnum hsteps hge hzero =>
    cases he
    refine ⟨?_, hsteps.frame.other .noise_msg (by simp)⟩
    rcases hsteps.rx_of_nonneg hge with hrx | ⟨k, bytes, hk, -⟩
    · simpa [gate_rx, hnum, setMsgNum] using hrx
    · rcases hsteps.known_of_nonneg hge with ⟨k', hk', -, hkept⟩ | ⟨hinc, -⟩
      · rw [hk] at hk'
        rw [hzero] at hkept
        cases hk'
        cases hkept
      · simp [hk, SizeField.incomplete] at hinc
  | @third r hnum hsteps hge =>
    cases he
    refine ⟨?_, hsteps.frame.other .noise_msg (by simp)⟩
    rcases hsteps.rx_of_nonneg hge with hrx | ⟨k, bytes, hk, hpart⟩
    · rcases hneg : w.nc.neg_data with _ | b0 | _ | k
      · simpa [gate_rx, hnum, hneg, setMsgNum] using hrx
      · simpa [gate_rx, hnum, hneg, setMsgNum] using hrx
      · simpa [gate_rx, hnum, hneg, setMsgNum] using hrx
      · simp [zero_rx, hneg] at hrx
    · simp [gate_rx, hnum, hk, hpart]
      rfl
  | unknown _ => cases he
  | reread hnum hk hneg hrest =>
    exfalso
    clear hneg hnum
    induction hrest with
    | stop hneg =>
      cases he
      omega
    | status => cases he
    | more _ _ ih => exact ih he

theorem gate_rx_of_reread {k : Nat} (hnum : w.nc.msg_num = NGX_NSOC_2MSG_OK) (hk : k ≠ 0)
    (hneg : w.nc.neg_data = .known k) : w.gate_rx = none := by
  obtain ⟨k, rfl⟩ := Nat.exists_eq_succ_of_ne_zero hk
  simp [gate_rx, hnum, zero_rx, hneg]

/-- A gate that was not passed has no stream behind it. -/
theorem GateOutcome.rx_of_stop {e : ReadExit S} (h : GateOutcome w e)
    (he : ∀ n v, e = .leave n v → n < 0) : w.gate_rx = none := by
  cases h with
  | first hnum => simpa using he _ _ rfl
  | second _ _ _ _ | third _ _ _ => simpa using he _ _ rfl
  | @stopped r hnum hsteps hneg =>
    obtain ⟨hzero, hpart⟩ := hsteps.rx_of_neg hneg
    rcases hnum with hnum | hnum
    · simp [gate_rx, hnum, hzero]
    · rcases hk : w.nc.neg_data with _ | b0 | _ | k
      · simp [gate_rx, hnum, hk, hzero]
      · simp [gate_rx, hnum, hk, hzero]
      · simp [gate_rx, hnum, hk, hzero]
      · simp [gate_rx, hnum, hk, hpart k hk]
  | reread hnum hk hneg _ => exact gate_rx_of_reread hnum hk hneg
  | unknown hnum => simp [gate_rx, hnum.1, hnum.2.1, hnum.2.2]

end

end Endpoint

end ngx_nsoc
