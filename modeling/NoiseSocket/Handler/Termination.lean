import NoiseSocket.Handler.Spin

open Exec Exec.Result

namespace ngx_nsoc

variable {S : Type}

namespace Endpoint

theorem read_negotiation_settles (true_len : Nat) (w : Endpoint S) :
    ∃ r, Settles (fun fuel => w.read_negotiation fuel true_len) (ok r) ∧ NegSteps true_len w r := by
  obtain ⟨r, hread, hsteps⟩ := w.read_negotiation_spec true_len (Nat.le_refl 2)
  exact ⟨r, ⟨2, fun fuel hfuel => read_negotiation_mono hfuel hread⟩, hsteps⟩

theorem read_noise_msg_settles (w : Endpoint S) :
    Starves w.nc.noise_msg w.env.rx ∧ Settles (fun fuel => w.read_noise_msg fuel) div ∨
      ¬ Starves w.nc.noise_msg w.env.rx ∧
        ∃ r, Settles (fun fuel => w.read_noise_msg fuel) (ok r) ∧ MsgSteps w r := by
  by_cases hstarves : Starves w.nc.noise_msg w.env.rx
  · refine .inl ⟨hstarves, 2, ?_⟩
    intro fuel hfuel
    rcases w.read_noise_msg_spec hfuel with ⟨-, hdiv⟩ | ⟨hnot, -⟩
    · exact hdiv
    · exact absurd hstarves hnot
  · rcases w.read_noise_msg_spec (Nat.le_refl 2) with ⟨h, -⟩ | ⟨-, r, hread, hsteps⟩
    · exact absurd h hstarves
    · exact .inr ⟨hstarves, r, ⟨2, fun fuel hfuel => read_noise_msg_mono hfuel hread⟩, hsteps⟩

/-- One pass that reads returns. -/
theorem gate_read_settles (size : Nat) (w : Endpoint S) :
    ∃ r, NegSteps size w r ∧
      (r.1 < 0 ∧ Settles (fun fuel => gate_read fuel size w) (ok (.done (.leave r.1 r.2))) ∨
        0 ≤ r.1 ∧ Settles (fun fuel => gate_read fuel size w) (ok (.cont (some size, r.2)))) := by
  obtain ⟨r, hread, hsteps⟩ := w.read_negotiation_settles size
  refine ⟨r, hsteps, ?_⟩
  by_cases hneg : r.1 < 0
  · refine .inl ⟨hneg, hread.bind ⟨0, fun _ _ => ?_⟩⟩
    simp [hneg]
  · refine .inr ⟨by omega, hread.bind ⟨0, fun _ _ => ?_⟩⟩
    simp [hneg]

/-- Reading the same negotiation data again fills the buffer and ends. -/
theorem rereads_settle {k : Nat} (size : Nat) (hk : k ≠ 0) (m : Nat) {v : Endpoint S} {b : Buf}
    (hnum : v.nc.msg_num = NGX_NSOC_2MSG_OK) (hneg : v.nc.neg_data = .known k)
    (hbuf : v.nc.buf = some b) (hroom : b.room ≤ m) :
    ∃ x, x ≠ div ∧ LoopSettles read_message_body (some size, v) x := by
  induction m using Nat.strong_induction_on generalizing v b with
  | _ m ih =>
    rcases read_message_body_status size hnum hk hneg with hfault | hret | hread
    · exact ⟨fault, by simp, .of_fault ⟨0, fun fuel _ => hfault fuel⟩⟩
    · exact ⟨ok (.ret NGX_ERROR v), by simp, .of_done ⟨0, fun fuel _ => hret fuel⟩⟩
    obtain ⟨r, hsteps, ⟨hlt, hsettles⟩ | ⟨hge, hsettles⟩⟩ := gate_read_settles size v
    · exact ⟨ok (.leave r.1 r.2), by simp, .of_done (by simpa only [hread] using hsettles)⟩
    rcases hsteps.known_of_nonneg hge with ⟨k', hk', hr, hkept⟩ | ⟨hinc, -⟩
    swap
    · simp [hneg, SizeField.incomplete] at hinc
    obtain rfl : k = k' := by simpa [hneg] using hk'
    rw [hr] at hge
    cases (read_part_cases (.neg_data k) k v).2 with
    | empty hsize _ => exact absurd hsize hk
    | failed _ hfail => simp [hfail] at hge
    | again _ _ _ hagain | known_eof _ hagain | closed _ _ _ hagain | short _ _ _ hagain =>
      simp [hagain] at hge
    | whole b' got hpos hb _ hle hgot _ _ _ _ hnew =>
      obtain rfl : b = b' := by
        rcases hb with hb | ⟨hb, -⟩
        · simpa [hbuf] using hb
        · simp [hbuf] at hb
      have hless : ({ b with bytes := b.bytes ++ got } : Buf).room < b.room := by
        simp only [Buf.room, List.length_append] at hgot ⊢
        omega
      rw [← hr] at hnew
      obtain ⟨x, hx, hloop⟩ := ih _ (by omega) (hsteps.frame.msg_num.trans hnum) hkept hnew
        (Nat.le_refl _)
      exact ⟨x, hx, .of_cont (by simpa only [hread] using hsettles) hloop⟩

/-- The loop over the negotiation part always ends. -/
theorem read_message_gate_settles (w : Endpoint S) :
    ∃ x, x ≠ div ∧ LoopSettles read_message_body (none, w) x ∧
      (x = fault → w.gate_rx = none) := by
  by_cases h1 : w.nc.msg_num = NGX_NSOC_1MSG
  · exact ⟨_, by simp, .of_done ⟨0, fun fuel _ => read_message_body_first none h1⟩, by simp⟩
  by_cases hnum : w.nc.msg_num = NGX_NSOC_2MSG_OK ∨ w.nc.msg_num = NGX_NSOC_3MSG
  swap
  · refine ⟨_, by simp, .of_done ⟨0, fun fuel _ => read_message_body_unknown none ?_⟩, by simp⟩
    exact ⟨h1, fun h2 => hnum (.inl h2), fun h3 => hnum (.inr h3)⟩
  obtain ⟨r, hsteps, ⟨hlt, hsettles⟩ | ⟨hge, hsettles⟩⟩ := gate_read_settles 0 w
  · refine ⟨ok (.leave r.1 r.2), by simp, .of_done ?_, by simp⟩
    simpa only [read_message_body_read hnum] using hsettles
  have hcont : Settles (fun fuel => read_message_body fuel (none, w)) (ok (.cont (some 0, r.2))) := by
    simpa only [read_message_body_read hnum] using hsettles
  have hnum' := hsteps.frame.msg_num
  rcases hnum with h2 | h3
  · by_cases hzero : r.2.nc.neg_data = .known 0
    · refine ⟨ok (.leave NGX_OK (r.2.setMsgNum NGX_NSOC_3MSG)), by simp,
        .of_cont hcont (.of_done ⟨0, fun fuel _ => ?_⟩), by simp⟩
      exact read_message_body_second_ok (hnum'.trans h2) hzero
    rcases hsteps.known_of_nonneg hge with ⟨k, hk, hr, hkept⟩ | ⟨-, hkept⟩
    swap
    · exact absurd hkept hzero
    have hk0 : k ≠ 0 := by
      rintro rfl
      exact hzero hkept
    obtain ⟨b, hbuf, -⟩ := part_rx_of_nonneg (Nat.pos_of_ne_zero hk0) (hr ▸ hge)
    rw [← hr] at hbuf
    obtain ⟨x, hx, hloop⟩ :=
      rereads_settle 0 hk0 b.room (hnum'.trans h2) hkept hbuf (Nat.le_refl _)
    exact ⟨x, hx, .of_cont hcont hloop, fun _ => gate_rx_of_reread h2 hk0 hk⟩
  · refine ⟨ok (.leave NGX_OK (r.2.setMsgNum NGX_NSOC_1MSG)), by simp,
      .of_cont hcont (.of_done ⟨0, fun fuel _ => ?_⟩), by simp⟩
    exact read_message_body_third (hnum'.trans h3)

/-- Receiving a message ends, or spins where `ReadSpins` says. -/
theorem read_message_settles (N : NoiseC S) (w : Endpoint S) :
    w.ReadSpins ∧ Settles (fun fuel => w.handshake_start_action_read_message N fuel) div ∨
      ¬ w.ReadSpins ∧ ∃ x, x ≠ div ∧
        Settles (fun fuel => w.handshake_start_action_read_message N fuel) x := by
  obtain ⟨x, hx, hloop, hfault⟩ := w.read_message_gate_settles
  have hgate := hloop.settles
  have hnot : w.gate_rx = none → ¬ w.ReadSpins := by
    rintro hnone ⟨rx, hrx, -⟩
    rw [hnone] at hrx
    cases hrx
  cases x with
  | div => exact absurd rfl hx
  | fault => exact .inr ⟨hnot (hfault rfl), fault, by simp, hgate.bind_fault⟩
  | ok e =>
    have hout : GateOutcome w e := by
      obtain ⟨bound, hbound⟩ := hgate
      exact read_message_gate_cases (hbound bound (Nat.le_refl _))
    cases e with
    | ret n v =>
      refine .inr ⟨hnot (hout.rx_of_stop (by simp)), ok (n, v), by simp, hgate.bind ?_⟩
      exact settles_const _
    | leave n v =>
      by_cases hn : n < 0
      · refine .inr ⟨hnot (hout.rx_of_stop ?_), ok (n, v.setBuf none), by simp, hgate.bind ?_⟩
        · intro n' v' he
          cases he
          exact hn
        · exact ⟨0, fun _ _ => by simp [hn]⟩
      obtain ⟨hrx, hmsg⟩ := hout.rx_of_nonneg (by omega)
      have hspins : w.ReadSpins ↔ Starves (v.setBuf none).nc.noise_msg (v.setBuf none).env.rx := by
        show _ ↔ Starves v.nc.noise_msg v.env.rx
        rw [hmsg]
        exact ⟨fun ⟨rx, hrx', hs⟩ => by rw [hrx] at hrx'; cases hrx'; exact hs, fun hs => ⟨_, hrx, hs⟩⟩
      have hnoise : ∀ y, Settles (fun fuel => (v.setBuf none).read_message_noise N fuel) y →
          Settles (fun fuel => w.handshake_start_action_read_message N fuel) y := by
        intro y hy
        refine hgate.bind ?_
        simpa only [if_neg hn] using hy
      rcases (v.setBuf none).read_noise_msg_settles with ⟨hstarves, hdiv⟩ | ⟨hfed, r, hread, -⟩
      · exact .inl ⟨hspins.mpr hstarves, hnoise div hdiv.bind_div⟩
      · obtain ⟨y, hy, htail⟩ : ∃ y, y ≠ div ∧
            Settles (fun fuel => (v.setBuf none).read_message_noise N fuel) y := by
          refine ⟨_, ?_, hread.bind (settles_const _)⟩
          dsimp only
          split_ifs
          · simp
          · split
            · simp
            · split_ifs <;> simp
        exact .inr ⟨fun h => hfed (hspins.mp h), y, hy, hnoise y htail⟩

end Endpoint

end ngx_nsoc
