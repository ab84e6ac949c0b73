import NoiseSocket.Handler.Outcome

open Exec Exec.Result

namespace ngx_nsoc

variable {S : Type}

namespace Endpoint

/-- The same connection, the same noise connection, and the handshake no further. -/
structure Stays (w w' : Endpoint S) : Prop where
  role : w'.nc.noise_role = w.nc.noise_role
  connection : w'.nc.connection = w.nc.connection
  id : w'.c.id = w.c.id
  transport : w'.c.transport = w.c.transport
  handshaked : w'.nc.handshaked = w.nc.handshaked

theorem Stays.refl (w : Endpoint S) : Stays w w := ⟨rfl, rfl, rfl, rfl, rfl⟩

theorem Stays.trans {u v w : Endpoint S} (h : Stays u v) (h' : Stays v w) : Stays u w :=
  ⟨h'.role.trans h.role, h'.connection.trans h.connection, h'.id.trans h.id,
    h'.transport.trans h.transport, h'.handshaked.trans h.handshaked⟩

theorem Reads.stays {w w' : Endpoint S} (h : Reads w w') : Stays w w' := by
  have hconnection : w'.nc.connection = w.nc.connection := by
    simpa [NoiseConnection.settled] using congrArg NoiseConnection.connection h.settled
  exact ⟨h.noise_role, hconnection, h.id, h.transport, h.handshaked⟩

theorem WriteFrame.stays {w w' : Endpoint S} (h : WriteFrame w w') : Stays w w' :=
  ⟨by rw [h.nc], by rw [h.nc], by rw [h.c], by rw [h.c], by rw [h.nc]⟩

theorem SendFrame.stays {w w' : Endpoint S} (h : SendFrame w w') : Stays w w' :=
  ⟨by rw [h.nc], by rw [h.nc], h.id, h.transport, by rw [h.nc]⟩

theorem InitFrame.stays {w w' : Endpoint S} (h : InitFrame w w') : Stays w w' :=
  ⟨by rw [h.nc], by rw [h.nc], by rw [h.c], by rw [h.c], by rw [h.nc]⟩

/-- The noise connection of a client to an upstream. -/
structure Client (w : Endpoint S) : Prop where
  role : w.nc.noise_role = .client
  bound : w.Bound
  transport : w.nc.handshaked = true → w.c.transport = .noise

theorem Stays.client {w w' : Endpoint S} (h : Stays w w') (hw : w.Client) : w'.Client := by
  refine ⟨h.role.trans hw.role, ?_, ?_⟩
  · rw [Bound, h.connection, h.id]
    exact hw.bound
  · rw [h.handshaked, h.transport]
    exact hw.transport

theorem SendOutcome.stays {N : NoiseC S} {b : Buf} {w : Endpoint S}
    {flow : ControlFlow (Endpoint S) (Int × Endpoint S)} (h : SendOutcome N b w flow) :
    Stays w (flowState flow) := by
  cases h with
  | refused hframe _ | blocked hframe _ _ _ _ | wait hframe _ _ _ _ _ | go_on hframe _ _ _ _ =>
    exact hframe.stays

theorem SendOutcome.hooked {N : NoiseC S} {b : Buf} {w : Endpoint S}
    {flow : ControlFlow (Endpoint S) (Int × Endpoint S)} (h : SendOutcome N b w flow) :
    (flowState flow).IsHooked := by
  cases h with
  | refused hframe _ | blocked hframe _ _ _ _ | wait hframe _ _ _ _ _ | go_on hframe _ _ _ _ =>
    exact ⟨hframe.read_handler, hframe.write_handler⟩

theorem MessageSteps.stays {N : NoiseC S} {w : Endpoint S} {r : Int × Endpoint S}
    (h : MessageSteps N w r) : Stays w r.2 := by
  cases h with
  | gate_ret n v hgate hr =>
    rw [hr]
    exact hgate.reads.stays
  | gate_stop n v hgate hn hr =>
    rw [hr]
    exact (hgate.reads.trans (reads_setBuf _ _)).stays
  | msg_stop n v hgate hn hmsg hr =>
    exact (hgate.reads.trans ((reads_setBuf _ _).trans hmsg.frame.reads)).stays
  | rejected n v q b code noise hgate hn hmsg hq hbuf hcall hcode hr =>
    rw [hr]
    exact (hgate.reads.trans ((reads_setBuf _ _).trans hmsg.frame.reads)).stays.trans
      ⟨rfl, rfl, rfl, rfl, rfl⟩
  | accepted n v q b noise hgate hn hmsg hq hbuf hcall hr =>
    rw [hr]
    exact (hgate.reads.trans ((reads_setBuf _ _).trans hmsg.frame.reads)).stays.trans
      ⟨rfl, rfl, rfl, rfl, rfl⟩

theorem split_action_client (N : NoiseC S) {w : Endpoint S} (hw : w.Client) :
    (w.split_action N).2.Client := by
  unfold split_action
  dsimp only
  split_ifs
  · exact ⟨hw.role, hw.bound, hw.transport⟩
  · exact ⟨hw.role, hw.bound, hw.transport⟩
  · exact ⟨hw.role, hw.bound, fun _ => rfl⟩

theorem ProcessStep.client {N : NoiseC S} {w : Endpoint S}
    {flow : ControlFlow (Endpoint S) (Int × Endpoint S)} (h : ProcessStep N w flow)
    (hw : w.Client) : (flowState flow).Client := by
  cases h with
  | write_failed _ _ hmsg _ => exact (write_message_cases hmsg).1.stays.client hw
  | write_new _ _ hmsg =>
    exact ((write_message_cases hmsg).1.stays.trans (send_action_cases N _ _).stays).client hw
  | write_old _ _ _ => exact (send_action_cases N _ w).stays.client hw
  | read_stopped _ hsteps _ | read_done _ hsteps _ =>
    exact ((w.reads_setLast 0).stays.trans hsteps.stays).client hw
  | split _ => exact split_action_client N hw
  | failed => exact hw

theorem StartOutcome.client {N : NoiseC S} {w : Endpoint S}
    {flow : ControlFlow (Endpoint S) (Int × Endpoint S)} (h : StartOutcome N w flow)
    (hw : w.Client) : (flowState flow).Client := by
  cases h with
  | @failed v hframe => exact (hframe.stays.trans (v.reads_setBuf none).stays).client hw
  | @started v hframe _ =>
    have hid : v.c.id = w.c.id := by rw [hframe.c]
    have htransport : v.c.transport = w.c.transport := by rw [hframe.c]
    exact Stays.client (w := w) ⟨rfl, rfl, hid, htransport, rfl⟩ hw

theorem PassStep.client {N : NoiseC S} {w : Endpoint S}
    {flow : ControlFlow (Endpoint S) (Int × Endpoint S)} (h : PassStep N w flow)
    (hw : w.Client) : (flowState flow).Client := by
  have hnone : ∀ {flow}, NoneStep N w flow → (flowState flow).Client := by
    intro flow h
    cases h with
    | client _ hstart => exact hstart.client hw
    | neg_stopped hrole | version hrole | header hrole =>
      rw [hw.role] at hrole
      cases hrole
  cases h with
  | none_done _ h => exact hnone h
  | none_process _ h hprocess => exact hprocess.client (hnone h)
  | process _ hprocess => exact hprocess.client hw
  | spin _ => exact hw

/-- No call of the handshake gives the noise connection of a client away, and when the
handshake is over the transport of the connection has changed. -/
theorem do_handshake_process_client {N : NoiseC S} {fuel : Nat} {w : Endpoint S}
    {r : Int × Endpoint S} (hw : w.Client) (h : w.do_handshake_process N fuel = ok r) :
    r.2.Client := by
  refine loop_invariant Client (fun r => r.2.Client) ?_ ?_ hw h
  · intro v u hv hbody
    exact (do_handshake_process_body_cases hbody).client hv
  · intro v r hv hbody
    exact (do_handshake_process_body_cases hbody).client hv

/-- A noise message of which no length is known is received with hooked events. -/
theorem MsgSteps.hooked {w : Endpoint S} {r : Int × Endpoint S} (h : MsgSteps w r)
    (hsize : w.nc.noise_msg.incomplete) : r.2.IsHooked := by
  have hhooked : w.Hooked.IsHooked := ⟨rfl, rfl⟩
  cases h with
  | known size hknown _ => simp [hknown, SizeField.incomplete] at hsize
  | again v _ _ hlen _ hr =>
    rw [hr]
    exact (hlen.frame.reads.trans v.reads_read_again).hooked hhooked
  | error v _ _ hlen _ hr =>
    rw [hr]
    exact hlen.frame.reads.hooked hhooked
  | accepted v size _ hlen _ _ hr =>
    rw [hr]
    exact (hlen.frame.reads.trans (read_part_cases _ _ _).1.reads).hooked hhooked

/-- A client that has not begun to send or receive. -/
structure Unsent (w : Endpoint S) : Prop where
  role : w.nc.noise_role = .client
  msg_num : w.nc.msg_num = NGX_NSOC_1MSG
  noise_msg : w.nc.noise_msg = .unset

theorem MessageSteps.hooked {N : NoiseC S} {w : Endpoint S} {r : Int × Endpoint S}
    (h : MessageSteps N w r) (hw : w.Unsent) : r.2.IsHooked ∨ r.1 = NGX_ERROR := by
  have hfirst : ∀ {n : Int} {v : Endpoint S}, GateOutcome w (.leave n v) →
      n = NGX_OK ∧ v = w.setMsgNum NGX_NSOC_2MSG_OK := by
    intro n v hgate
    generalize he : ReadExit.leave n v = e at hgate
    cases hgate with
    | first => cases he; exact ⟨rfl, rfl⟩
    | stopped hnum | second hnum | third hnum | reread hnum =>
      simp [hw.msg_num] at hnum
    | unknown => cases he
  have hincomplete : ∀ {v : Endpoint S}, v = w.setMsgNum NGX_NSOC_2MSG_OK →
      (v.setBuf none).nc.noise_msg.incomplete := by
    intro v hv
    subst hv
    simp [setBuf, setMsgNum, hw.noise_msg, SizeField.incomplete]
  cases h with
  | gate_ret n v hgate hr =>
    rw [hr]
    exact .inr hgate.ret_error
  | gate_stop n v hgate hn hr =>
    obtain ⟨rfl, -⟩ := hfirst hgate
    simp at hn
  | msg_stop n v hgate hn hmsg hr => exact .inl (hmsg.hooked (hincomplete (hfirst hgate).2))
  | rejected n v q b code noise hgate hn hmsg hq hbuf hcall hcode hr => exact .inr (by rw [hr])
  | accepted n v q b noise hgate hn hmsg hq hbuf hcall hr =>
    have hhooked := hmsg.hooked (hincomplete (hfirst hgate).2)
    rw [hr]
    exact .inl ⟨hhooked.read, hhooked.write⟩

/-- The events of the connection go to the handshake, unless nothing has been sent or received. -/
def Ready (w : Endpoint S) : Prop := w.Unsent ∨ w.IsHooked

/-- A handshake that is suspended has hooked the events. -/
def WaitsHooked : ControlFlow (Endpoint S) (Int × Endpoint S) → Prop
  | .cont v => v.Ready
  | .done r => r.2.IsHooked ∨ r.1 ≠ NGX_AGAIN

theorem waits_hooked_of_hooked {flow : ControlFlow (Endpoint S) (Int × Endpoint S)}
    (h : (flowState flow).IsHooked) : WaitsHooked flow := by
  cases flow with
  | cont v => exact .inr h
  | done r => exact .inl h

theorem ProcessStep.waits_hooked {N : NoiseC S} {w : Endpoint S}
    {flow : ControlFlow (Endpoint S) (Int × Endpoint S)} (h : ProcessStep N w flow)
    (hw : w.Ready) : WaitsHooked flow := by
  have hread : ∀ {r : Int × Endpoint S}, MessageSteps N (w.setLast 0) r →
      r.2.IsHooked ∨ r.1 = NGX_ERROR := by
    intro r hsteps
    obtain hw | hw := hw
    · exact hsteps.hooked ⟨hw.role, hw.msg_num, hw.noise_msg⟩
    · exact .inl (((w.reads_setLast 0).keeps.trans hsteps.keeps).hooked hw)
  cases h with
  | @write_failed n b v haction hlast hmsg hn =>
    right
    cases (write_message_cases hmsg).2 with
    | refused hcode => simp [hcode]
    | noise_error code hcode =>
      simp only [hcode, NGX_AGAIN]
      omega
    | error_message hcode | written _ _ _ hcode => exact absurd hcode hn
  | write_new _ _ hmsg => exact waits_hooked_of_hooked (send_action_cases N _ _).hooked
  | write_old _ _ _ => exact waits_hooked_of_hooked (send_action_cases N _ w).hooked
  | read_stopped _ hsteps hn =>
    obtain hhooked | herror := hread hsteps
    · exact .inl hhooked
    · exact .inr (by simp [herror])
  | read_done _ hsteps hn =>
    obtain hhooked | herror := hread hsteps
    · exact .inr hhooked
    · simp [herror] at hn
  | split _ =>
    right
    unfold split_action
    dsimp only
    split_ifs <;> simp
  | failed => exact .inr (by simp)

theorem PassStep.waits_hooked {N : NoiseC S} {w : Endpoint S}
    {flow : ControlFlow (Endpoint S) (Int × Endpoint S)} (h : PassStep N w flow)
    (hw : w.Client) (hready : w.Ready) : WaitsHooked flow := by
  have hnone : ∀ {flow}, NoneStep N w flow → WaitsHooked flow := by
    intro flow h
    cases h with
    | client _ hstart =>
      cases hstart with
      | failed hframe => exact .inr (by simp)
      | @started v hframe _ =>
        obtain hunsent | hhooked := hready
        · exact .inl ⟨hunsent.role, hunsent.msg_num, hunsent.noise_msg⟩
        · have hread : v.c.read.handler = .handshake_handler := by
            rw [hframe.c]
            exact hhooked.read
          have hwrite : v.c.write.handler = .handshake_handler := by
            rw [hframe.c]
            exact hhooked.write
          exact .inr ⟨hread, hwrite⟩
    | neg_stopped hrole | version hrole | header hrole =>
      rw [hw.role] at hrole
      cases hrole
  cases h with
  | none_done _ h => exact hnone h
  | none_process _ h hprocess => exact hprocess.waits_hooked (hnone h)
  | process _ hprocess => exact hprocess.waits_hooked hready
  | spin _ => exact hready

/-- The first call of a client's handshake is suspended with hooked events only. -/
theorem do_handshake_process_waits_hooked {N : NoiseC S} {fuel : Nat} {w : Endpoint S}
    {r : Int × Endpoint S} (hw : w.Client) (hunsent : w.Unsent)
    (h : w.do_handshake_process N fuel = ok r) : r.2.IsHooked ∨ r.1 ≠ NGX_AGAIN := by
  refine loop_invariant (fun v => v.Client ∧ v.Ready) (fun r => r.2.IsHooked ∨ r.1 ≠ NGX_AGAIN)
    ?_ ?_ ⟨hw, .inl hunsent⟩ h
  · rintro v u ⟨hv, hready⟩ hbody
    have hpass := do_handshake_process_body_cases hbody
    exact ⟨hpass.client hv, hpass.waits_hooked hv hready⟩
  · rintro v r ⟨hv, hready⟩ hbody
    exact (do_handshake_process_body_cases hbody).waits_hooked hv hready

end Endpoint

end ngx_nsoc
