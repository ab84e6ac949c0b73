import NoiseSocket.Handler.Dialogue.Openings
import NoiseSocket.Handler.Termination.Start

open Exec Exec.Result

namespace ngx_nsoc

variable {S : Type}

namespace Endpoint

section

variable {N : NoiseC S} {w v : Endpoint S} {r : Int × Endpoint S} {left : List UInt8}

theorem start_handshake_ne_div (N : NoiseC S) (w : Endpoint S) : w.start_handshake N ≠ div := by
  refine bind_ne_div (ngx_noise_protocol.init_handshake_ne_div N w) ?_
  rintro ⟨n, v⟩ _
  dsimp only
  split_ifs <;> simp

/-- Only the set-up of noise-c can go wrong, and then it does in the dialogue. -/
theorem start_of_fault (h : w.start_handshake N = fault) : (w.dialogue left).start N = .fault := by
  have hinit : ngx_noise_protocol.init_handshake N w = fault := by
    rcases hcall : ngx_noise_protocol.init_handshake N w with ⟨n, v⟩ | _ | _
    · unfold start_handshake at h
      rw [hcall, bind_ok] at h
      dsimp only at h
      split_ifs at h
    · rfl
    · exact absurd hcall (ngx_noise_protocol.init_handshake_ne_div N w)
  have hsame := ngx_noise_protocol.init_handshake_same N (w.sameKeys_dialogue left)
  rw [hinit] at hsame
  generalize hcall : ngx_noise_protocol.init_handshake N (w.dialogue left).endpoint = x at hsame
  cases hsame
  unfold Dialogue.start
  rw [hcall]

/-- A message is made where the environment refuses nothing. -/
theorem write_message_total (hgranted : w.Granted) (hnum : IsMessage w.nc.msg_num) : ∃ n b v,
    w.handshake_start_action_write_message N = ok (n, b, v) ∧ (n = NGX_OK → b ≠ none) := by
  obtain ⟨header, hheader⟩ := message_header_of_isMessage hnum
  have herr : w.nc.msg_num ≠ NGX_NSOC_2MSG_ERR := by
    rcases hnum with h | h | h <;> rw [h] <;> decide
  unfold handshake_start_action_write_message
  simp only [hgranted.ngx_alloc]
  rw [if_neg (not_not.mpr trivial), if_neg herr, hheader]
  dsimp only
  rw [if_neg (not_not.mpr trivial)]
  by_cases hcode : (N.handshakestate_write_message w.noise).1.1 = NOISE_ERROR_NONE
  · rw [write_noise_message_of_ok (by exact hcode)]
    exact ⟨_, _, _, rfl, fun _ => nofun⟩
  · rw [write_noise_message_of_error (by exact hcode)]
    refine ⟨_, _, _, rfl, fun hzero => ?_⟩
    exact absurd (Int.natCast_eq_zero.mp hzero) hcode

theorem AtMessage.gate_ne_fault (hw : w.AtMessage left) (n fuel : Nat) :
    loop (read_message_body fuel) n (none, w) ≠ fault := by
  by_cases hfirst : w.nc.msg_num = NGX_NSOC_1MSG
  · obtain _ | n := n
    · nofun
    · rw [loop_of_done (Nat.succ_pos n) (read_message_body_first none hfirst)]
      nofun
  · refine (read_message_gate_safe ?_ ?_ n fuel).ne_fault
    · intro k hk
      have hinc := hw.later hfirst
      rw [hk] at hinc
      cases hinc
    · intro b hb
      cases hw.buf.symm.trans hb

/-- Receiving goes wrong with a message of no bytes only. -/
theorem read_of_fault (hat : w.AtMessage left) {fuel : Nat}
    (h : w.handshake_start_action_read_message N fuel = fault) : (w.dialogue left).read N = .fault := by
  unfold handshake_start_action_read_message at h
  rcases hloop : loop (read_message_body fuel) fuel (none, w) with e | _ | _
  · rw [hloop, bind_ok] at h
    have hgate := read_message_gate_cases hloop
    cases e with
    | ret n v => cases h
    | leave n v =>
      dsimp only at h
      split_ifs at h with hn
      cases hat.negGate hgate with
      | refused => exact absurd (show (NGX_ERROR : Int) < 0 by decide) hn
      | waits => exact absurd (show (NGX_AGAIN : Int) < 0 by decide) hn
      | passed hpart hreads hv hunset hnum =>
        have hsteady : (v.setBuf none).Steady := hv.congr rfl rfl
        unfold read_message_noise at h
        rcases hread : (v.setBuf none).read_noise_msg fuel with q | _ | _
        · rw [hread, bind_ok] at h
          dsimp only at h
          split_ifs at h with hq
          cases (read_noise_msg_cases hread).noiseRead hsteady hunset rfl with
          | message message _ hbuf =>
            rw [hbuf] at h
            dsimp only at h
            split_ifs at h
          | empty _ _ hmessage =>
            have hpart : Dialogue.negotiation_part (w.dialogue left).msg_num (w.dialogue left).left =
              .behind v.env.rx.bytes := hpart
            have hmessage : Dialogue.noise_part v.env.rx.bytes = some ([], q.2.env.rx.bytes) := hmessage
            unfold Dialogue.read
            rw [hpart]
            dsimp only
            rw [hmessage]
          | broken hagain =>
            rw [hagain] at hq
            exact absurd (show (NGX_AGAIN : Int) < 0 by decide) hq
        · exact absurd hread (read_noise_msg_ne_fault _ _)
        · rw [hread] at h
          cases h
  · exact absurd hloop (hat.gate_ne_fault _ _)
  · rw [hloop] at h
    cases h

/-- The stream behind the negotiation part is open. -/
theorem AtMessage.live_gate (hw : w.AtMessage left) {rx : Net.Incoming} (h : w.gate_rx = some rx) : rx.Live := by
  by_cases hfirst : w.nc.msg_num = NGX_NSOC_1MSG
  · rw [gate_rx, if_pos hfirst] at h
    exact Option.some.inj h ▸ hw.steady.live
  have hinc := hw.later hfirst
  have hzero : w.zero_rx = some rx := by
    unfold gate_rx at h
    rw [if_neg hfirst] at h
    split_ifs at h
    · exact h
    · split at h
      · rename_i hknown
        rw [hknown] at hinc
        cases hinc
      · exact h
  rw [zero_rx_of_incomplete hinc] at hzero
  obtain ⟨b0, b1, rx', heq, hlive, -⟩ | ⟨saved, rx', heq, -, hlive, -⟩ := take_len_live hinc hw.steady.live
  all_goals
    rw [heq] at hzero
    split_ifs at hzero
    exact Option.some.inj hzero ▸ hlive

/-- No read goes round for ever: the stream does not end. -/
theorem AtMessage.not_readSpins (hw : w.AtMessage left) : ¬ w.ReadSpins := by
  rintro ⟨rx, hgate, hsize, hclosed⟩
  obtain ⟨b0, b1, rx', heq, -⟩ | ⟨saved, rx', heq, -⟩ := take_len_live hsize (hw.live_gate hgate)
  all_goals
    rw [heq] at hclosed
    cases hclosed

/-- What is done with the header once the read of it has returned. -/
def header_flow (N : NoiseC S) (r : Int × Endpoint S) : Result (ControlFlow (Endpoint S) (Int × Endpoint S)) :=
  if r.1 ≤ 0 then ok (.done r) else
  match r.2.nc.buf.bind fun b => FirstHdr.ofBytes b.bytes with
  | none => fault
  | some first_hdr =>
    if first_hdr.version_id ≠ NGX_NSOC_VERSION_ID then r.2.version_error N >>= fun q => ok (.done q)
    else start_handshake N { r.2 with prologue := { r.2.prologue with header := first_hdr } }

/-- What is done with the message once it has been made. -/
def message_flow (N : NoiseC S) (n : Int) (b : Option Buf) (v : Endpoint S) :
    Result (ControlFlow (Endpoint S) (Int × Endpoint S)) :=
  if n ≠ NGX_OK then ok (.done (n, v)) else
  match b with
  | none => fault
  | some b => ok (v.send_action N b)

/-- A phase returns, given enough passes, unless it reads through a buffer that is not there, and then its
dialogue does. -/
def PhaseSettles (N : NoiseC S) (w : Endpoint S) (left : List UInt8) : Prop :=
  ∃ x, x ≠ div ∧ Settles (fun fuel => w.phase N fuel) x ∧ (x = fault → (w.dialogue left).turn N = .fault)

theorem phaseSettles_of_const {x : Result (ControlFlow (Endpoint S) (Int × Endpoint S))} (hdiv : x ≠ div)
    (hphase : ∀ fuel, w.phase N fuel = x) (hfault : x = fault → (w.dialogue left).turn N = .fault) :
    PhaseSettles N w left :=
  ⟨x, hdiv, ⟨0, fun fuel _ => hphase fuel⟩, hfault⟩

theorem none_phase_of_server (hphase : w.nc.handshake_phase = .none_phase) (hrole : w.nc.noise_role = .server)
    (fuel : Nat) : w.phase N fuel = (w.read_negotiation fuel NGX_NSOC_1MSG_NEG_DATA_SIZE >>= header_flow N) := by
  simp only [phase, hphase, none_phase, hrole]
  rfl

theorem phaseSettles_of_client (hphase : w.nc.handshake_phase = .none_phase) (hrole : w.nc.noise_role = .client) :
    PhaseSettles N w left := by
  refine phaseSettles_of_const (start_handshake_ne_div N w) ?_ ?_
  · intro fuel
    simp only [phase, hphase, none_phase, hrole]
  · intro hfault
    rw [turn_of_client hphase hrole]
    exact start_of_fault hfault

theorem phaseSettles_of_server (hw : w.Stands N left) (hphase : w.nc.handshake_phase = .none_phase)
    (hrole : w.nc.noise_role = .server) : PhaseSettles N w left := by
  obtain ⟨r, hread, hneg⟩ := w.read_negotiation_settles NGX_NSOC_1MSG_NEG_DATA_SIZE
  have hphase_eq : Settles (fun fuel => w.phase N fuel) (header_flow N r) := by
    simp only [none_phase_of_server hphase hrole]
    exact hread.bind (settles_const _)
  have hturn : (w.dialogue left).turn N = (w.dialogue left).read_header N := turn_of_server hphase hrole
  have hstop : r.1 ≤ 0 → PhaseSettles N w left := by
    intro hn
    have hflow : header_flow N r = ok (.done r) := if_pos hn
    exact ⟨header_flow N r, by simp [hflow], hphase_eq, by simp [hflow]⟩
  cases hneg.headerRead hw hphase hrole with
  | waits hn | refused hn =>
    apply hstop
    rw [hn]
    decide
  | header b0 b1 got header hn hsix hleft hbuf hhdr hall hsize hv hneg' =>
    have hflow : header_flow N r =
        if header.version_id ≠ NGX_NSOC_VERSION_ID then r.2.version_error N >>= fun q => ok (.done q)
        else start_handshake N { r.2 with prologue := { r.2.prologue with header } } := by
      unfold header_flow
      rw [if_neg (by omega), hbuf, Option.bind_some, hhdr]
    by_cases hversion : header.version_id = NGX_NSOC_VERSION_ID
    · rw [if_neg (not_not.mpr hversion)] at hflow
      refine ⟨header_flow N r, hflow ▸ start_handshake_ne_div _ _, hphase_eq, fun hfault => ?_⟩
      rw [hturn, read_header_of_header hleft hsix hsize hall, if_neg (not_not.mpr hversion),
        ← dialogue_of_header hneg.frame.reads hneg.frame.msg_num]
      exact start_of_fault (hflow ▸ hfault)
    · obtain ⟨u, hcall, -⟩ := hv.version_error N
      rw [if_pos hversion, hcall, bind_ok] at hflow
      exact ⟨header_flow N r, by simp [hflow], hphase_eq, by simp [hflow]⟩

theorem phaseSettles_of_write (hat : w.AtMessage left) (hphase : w.nc.handshake_phase = .process_phase)
    (hzero : w.nc.last = 0) (hsend : w.action N = NOISE_ACTION_WRITE_MESSAGE) : PhaseSettles N w left := by
  obtain ⟨n, b, v, hmsg, hb⟩ := write_message_total (N := N) hat.steady.granted hat.num
  have hphase_eq : ∀ fuel, w.phase N fuel = message_flow N n b v := by
    intro fuel
    simp only [phase, hphase]
    unfold process_phase write_action
    rw [if_pos hsend, if_pos hzero, hmsg]
    rfl
  have hflow : message_flow N n b v ≠ div ∧ message_flow N n b v ≠ fault := by
    unfold message_flow
    by_cases hn : n = NGX_OK
    · rw [if_neg (not_not.mpr hn)]
      cases b with
      | none => exact absurd rfl (hb hn)
      | some b => simp
    · rw [if_pos hn]
      simp
  exact phaseSettles_of_const hflow.1 hphase_eq fun hfault => absurd hfault hflow.2

theorem phaseSettles_of_read (hat : w.AtMessage left) (hphase : w.nc.handshake_phase = .process_phase)
    (hlast : w.nc.last = 0 ∨ w.nc.last = NOISE_ACTION_READ_MESSAGE ∧
      N.handshakestate_get_action w.noise = NOISE_ACTION_READ_MESSAGE)
    (hread : w.action N = NOISE_ACTION_READ_MESSAGE) : PhaseSettles N w left := by
  rcases (w.setLast 0).read_message_settles N with ⟨hspins, -⟩ | ⟨-, x, hdiv, hsettles⟩
  · exact absurd hspins (hat.setLast 0).not_readSpins
  have hphases : Settles (fun fuel => w.phase N fuel)
      (x >>= fun r => if r.1 ≠ NGX_OK then ok (.done r) else ok (.cont r.2)) := by
    simp only [phase, hphase, process_phase_of_read hread]
    cases x with
    | ok r => exact hsettles.bind (settles_const _)
    | fault => exact hsettles.bind_fault
    | div => exact absurd rfl hdiv
  refine ⟨_, ?_, hphases, ?_⟩
  · refine bind_ne_div hdiv fun r _ => ?_
    split_ifs <;> simp
  · intro hfault
    cases x with
    | ok r =>
      rw [bind_ok] at hfault
      split_ifs at hfault
    | fault =>
      obtain ⟨bound, hbound⟩ := hsettles
      rw [turn_of_read hphase (get_action_of_read hlast hread)]
      have hfaults := read_of_fault (hat.setLast 0) (hbound bound le_rfl)
      exact hfaults
    | div => exact absurd rfl hdiv

theorem Stands.settles (hw : w.Stands N left) : PhaseSettles N w left := by
  cases hphase : w.nc.handshake_phase with
  | end_phase =>
    cases hw.place with
    | header h | behind_len h | message h => cases hphase.symm.trans h
  | none_phase =>
    cases hrole : w.nc.noise_role with
    | client => exact phaseSettles_of_client hphase hrole
    | server => exact phaseSettles_of_server hw hphase hrole
  | process_phase =>
    cases hw.place with
    | header h | behind_len h => cases hphase.symm.trans h
    | message _ hat hlast hwrite =>
      by_cases hsend : w.action N = NOISE_ACTION_WRITE_MESSAGE
      · have hzero : w.nc.last = 0 := by
          rcases hlast with hzero | ⟨hread, -⟩
          · exact hzero
          · rw [action, hread, if_pos (by decide)] at hsend
            cases hsend
        exact phaseSettles_of_write hat hphase hzero hsend
      by_cases hread : w.action N = NOISE_ACTION_READ_MESSAGE
      · exact phaseSettles_of_read hat hphase hlast hread
      have hcall : ∀ fuel, w.phase N fuel = ok (.done
          (if w.action N = NOISE_ACTION_SPLIT then w.split_action N else (NGX_ERROR, w))) := by
        intro fuel
        simp only [phase, hphase]
        unfold process_phase
        rw [if_neg hsend, if_neg hread]
        split_ifs
        · rfl
        · rfl
      exact phaseSettles_of_const (by simp) hcall (by simp)

end

end Endpoint

end ngx_nsoc
