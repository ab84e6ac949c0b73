import NoiseSocket.Handler.Termination
import NoiseSocket.NoiseProtocol.Frame

open Exec Exec.Result

namespace ngx_nsoc

open ngx_noise_protocol

variable {S : Type}

namespace Endpoint

/-- `gate_rx` reads these fields and no others. -/
structure SameGate (w u : Endpoint S) : Prop where
  msg_num : u.nc.msg_num = w.nc.msg_num
  neg_data : u.nc.neg_data = w.nc.neg_data
  noise_msg : u.nc.noise_msg = w.nc.noise_msg
  buf : u.nc.buf = w.nc.buf
  rx : u.env.rx = w.env.rx
  allocs : u.env.allocs = w.env.allocs
  eof : u.c.read.eof = w.c.read.eof

theorem SameGate.readSpins {w u : Endpoint S} (h : SameGate w u) :
    u.ReadSpins ↔ w.ReadSpins := by
  have hgate : u.gate_rx = w.gate_rx := by
    simp only [gate_rx, zero_rx, part_rx, target, h.msg_num, h.neg_data, h.buf, h.rx, h.allocs, h.eof]
  simp only [ReadSpins, hgate, h.noise_msg]

/-- The end of the first phase: the handshake starts, and spins at once if
`StartSpins` holds; or the call is over. -/
inductive StartEnd (N : NoiseC S) (w : Endpoint S) :
    Result (ControlFlow (Endpoint S) (Int × Endpoint S)) → Prop where
  | started {v : Endpoint S} (hphase : v.nc.handshake_phase = .process_phase)
      (hspins : v.action N = NOISE_ACTION_READ_MESSAGE ∧ v.ReadSpins ↔ w.StartSpins N) :
      StartEnd N w (ok (.cont v))
  | stopped {x : Result (ControlFlow (Endpoint S) (Int × Endpoint S))} (hdiv : x ≠ div)
      (hcont : ∀ v, x ≠ ok (.cont v)) (hspins : ¬ w.StartSpins N) : StartEnd N w x

theorem start_handshake_end (N : NoiseC S) (w : Endpoint S) :
    StartEnd N w (w.start_handshake N) := by
  rcases hinit : init_handshake N w with ⟨n, v⟩ | _ | _
  · obtain ⟨hframe, rfl | rfl⟩ := init_handshake_cases hinit
    · have heq : w.start_handshake N = ok (.cont { v.setBuf none with
          noise := (N.handshakestate_start v.noise).2
          nc := { (v.setBuf none).nc with handshake_phase := .process_phase, last := 0 } }) := by
        simp [start_handshake, hinit, setBuf]
      rw [heq]
      refine .started rfl ?_
      have hgate : SameGate (w.setBuf none) { v.setBuf none with
          noise := (N.handshakestate_start v.noise).2
          nc := { (v.setBuf none).nc with handshake_phase := .process_phase, last := 0 } } := by
        refine ⟨?_, ?_, ?_, rfl, ?_, ?_, ?_⟩
        · show v.nc.msg_num = w.nc.msg_num
          rw [hframe.nc]
        · show v.nc.neg_data = w.nc.neg_data
          rw [hframe.nc]
        · show v.nc.noise_msg = w.nc.noise_msg
          rw [hframe.nc]
        · exact congrArg Env.rx hframe.env
        · exact congrArg Env.allocs hframe.env
        · exact congrArg (fun c : Connection => c.read.eof) hframe.c
      rw [hgate.readSpins]
      simp only [action, ne_eq, not_true, if_false, StartSpins, hinit]
      constructor
      · rintro ⟨haction, hspins⟩
        exact ⟨v, rfl, haction, hspins⟩
      · rintro ⟨v', hv', haction, hspins⟩
        cases hv'
        exact ⟨haction, hspins⟩
    · refine .stopped ?_ ?_ ?_
      · simp [start_handshake, hinit]
      · simp [start_handshake, hinit]
      · rintro ⟨v', hv', -⟩
        rw [hinit] at hv'
        simp at hv'
  · refine .stopped ?_ ?_ ?_
    · simp [start_handshake, hinit]
    · simp [start_handshake, hinit]
    · rintro ⟨v', hv', -⟩
      rw [hinit] at hv'
      cases hv'
  · exact absurd hinit (init_handshake_ne_div N w)

theorem version_error_ne_div (N : NoiseC S) (w : Endpoint S) : w.version_error N ≠ div := by
  refine bind_ne_div (write_message_ne_div N _) ?_
  rintro ⟨n, b, v⟩ _
  dsimp only
  split_ifs
  · simp
  · cases b with
    | none => simp
    | some b =>
      dsimp only
      split_ifs <;> simp

theorem allocs_left_of_lenFrame {f : LenField} {w v : Endpoint S} (h : LenFrame f w.Hooked v) :
    v.allocs_left = w.allocs_left := by
  have hbuf : v.nc.buf = w.nc.buf := h.buf
  have hallocs : v.env.allocs = w.env.allocs := by
    rw [h.env]
    rfl
  simp only [allocs_left, hbuf, hallocs]

/-- A part behind a length that has just been received. -/
theorem part_rx_of_lenResult {f : LenField} {w v : Endpoint S}
    {taken : LenAnswer × Net.Incoming} (h : LenResult f w.Hooked v taken) (o : Obs) (size : Nat)
    (hclosed : taken.1.eof = true → taken.2 = ⟨[], true⟩) :
    part_rx { w with env := { w.env with rx := taken.2 } } size = (v.log o).part_rx size := by
  have hbuf : v.nc.buf = w.nc.buf := h.frame.buf
  have hallocs : v.env.allocs = w.env.allocs := by
    rw [h.frame.env]
    rfl
  have heof : v.c.read.eof = (w.c.read.eof || taken.1.eof) := h.eof
  rcases hend : taken.1.eof with _ | _
  · rw [hend, Bool.or_false] at heof
    exact (part_rx_congr (w := { w with env := { w.env with rx := taken.2 } }) (u := v.log o) size
      hbuf hallocs h.rx heof).symm
  · have hv : (v.log o).c.read.eof = true := by
      show v.c.read.eof = true
      rw [heof, hend, Bool.or_true]
    rw [part_rx_of_eof hv]
    unfold part_rx
    split
    · rfl
    · simp [hclosed hend]

/-- The first header of the server, as `header_rx` describes it. -/
theorem NegSteps.header_rx {w : Endpoint S} {r : Int × Endpoint S}
    (h : NegSteps NGX_NSOC_1MSG_NEG_DATA_SIZE w r) :
    (r.1 ≤ 0 → w.header_rx = none) ∧
      (0 < r.1 → ∃ k b, w.header_rx = some (k, b.bytes, r.2.env.rx) ∧ r.2.nc.buf = some b ∧
        r.2.nc.neg_data = .known k ∧ r.2.env.allocs = w.allocs_left ∧
        r.2.c.read.eof = w.c.read.eof) := by
  have hinc : w.nc.neg_data.incomplete → w.header_rx =
      if (take_len w.nc.neg_data w.env.rx).1.code = NGX_OK ∧
        (take_len w.nc.neg_data w.env.rx).1.size = .known NGX_NSOC_1MSG_NEG_DATA_SIZE then
        (part_rx { w with env := { w.env with rx := (take_len w.nc.neg_data w.env.rx).2 } }
          NGX_NSOC_1MSG_NEG_DATA_SIZE).map fun part => (NGX_NSOC_1MSG_NEG_DATA_SIZE, part)
      else none := by
    intro hinc
    rcases hneg : w.nc.neg_data with _ | b0 | size
    · simp only [Endpoint.header_rx, hneg]
    · simp only [Endpoint.header_rx, hneg]
    · simp [hneg, SizeField.incomplete] at hinc
  cases h with
  | known size hsize hr =>
    rcases size with _ | k
    · rw [hr, read_part_zero]
      exact ⟨fun _ => by simp [Endpoint.header_rx, hsize], by simp⟩
    · have hheader : w.header_rx = (w.part_rx (k + 1)).map fun part => (k + 1, part) := by
        simp [Endpoint.header_rx, hsize]
      refine ⟨?_, ?_⟩
      · intro hle
        rw [hheader]
        rw [hr] at hle
        have hne := read_part_ne_zero w (.neg_data (k + 1)) (show 0 < k + 1 by omega)
        rw [part_rx_of_neg (.neg_data (k + 1)) (by omega)]
        rfl
      · intro hpos
        rw [hr] at hpos ⊢
        obtain ⟨b, hbuf, hpart, hallocs, heof, heof'⟩ := part_rx_of_nonneg (by omega)
          (show 0 ≤ (w.read_part (.neg_data (k + 1)) (k + 1)).1 by omega)
        refine ⟨k + 1, b, by rw [hheader, hpart]; rfl, hbuf, ?_, hallocs, heof'.trans heof.symm⟩
        rw [(read_part_cases _ _ _).1.neg_data, hsize]
  | again v saved hsize hlen htaken hr =>
    refine ⟨fun _ => by simp [hinc hsize, htaken, LenAnswer.code], ?_⟩
    intro hpos
    rcases v.read_again_cases with ⟨-, hcode⟩ | ⟨hcode, -⟩
    all_goals simp [hr, hcode] at hpos
  | error v saved hsize hlen htaken hr =>
    exact ⟨fun _ => by simp [hinc hsize, htaken, LenAnswer.code], by simp [hr]⟩
  | mismatch v hsize hlen hcode hne hr =>
    refine ⟨fun _ => ?_, by simp [hr]⟩
    rw [hinc hsize, if_neg]
    rintro ⟨-, hsix⟩
    exact hne (by rw [hsix]; rfl)
  | accepted v hsize hlen hcode hknown hr =>
    have hclosed : (take_len w.nc.neg_data w.env.rx).1.eof = true →
        (take_len w.nc.neg_data w.env.rx).2 = ⟨[], true⟩ := by
      intro hend
      rcases htaken : (take_len w.nc.neg_data w.env.rx).1 with k | saved | saved | saved
      all_goals rw [htaken] at hend
      all_goals first | exact rx_of_taken_closed htaken | simp [LenAnswer.eof] at hend
    have hheader : w.header_rx = ((v.log (.negotiation 6 (some 6))).part_rx 6).map
        fun part => (6, part) := by
      rw [hinc hsize, if_pos ⟨hcode, hknown⟩, part_rx_of_lenResult hlen _ _ hclosed]
    refine ⟨?_, ?_⟩
    · intro hle
      rw [hheader]
      rw [hr] at hle
      simp only [NGX_NSOC_1MSG_NEG_DATA_SIZE] at hle
      have hne := read_part_ne_zero (v.log (.negotiation 6 (some 6))) (.neg_data 6)
        (show 0 < 6 by omega)
      rw [part_rx_of_neg (.neg_data 6) (by omega)]
      rfl
    · intro hpos
      rw [hr] at hpos ⊢
      simp only [NGX_NSOC_1MSG_NEG_DATA_SIZE] at hpos
      obtain ⟨b, hbuf, hpart, hallocs, heof, heof'⟩ := part_rx_of_nonneg (by omega)
        (show 0 ≤ ((v.log (.negotiation 6 (some 6))).read_part (.neg_data 6) 6).1 by omega)
      refine ⟨6, b, by rw [hheader, hpart]; rfl, hbuf, ?_, ?_, ?_⟩
      · rw [(read_part_cases _ _ _).1.neg_data]
        exact hlen.size.trans hknown
      · exact hallocs.trans (allocs_left_of_lenFrame (v := v) hlen.frame)
      · have hv : v.c.read.eof = (w.c.read.eof || (take_len w.nc.neg_data w.env.rx).1.eof) := hlen.eof
        have hfalse : v.c.read.eof = false := heof
        rw [hfalse] at hv
        refine heof'.trans ?_
        rcases hw : w.c.read.eof with _ | _
        · rfl
        · rw [hw] at hv
          simp at hv

end Endpoint

end ngx_nsoc
