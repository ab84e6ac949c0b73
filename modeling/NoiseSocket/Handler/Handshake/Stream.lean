import NoiseSocket.Handler.Handshake.Taken
import NoiseSocket.Handler.Handshake.Written

open Exec Exec.Result

namespace ngx_nsoc

variable {S : Type}

namespace Endpoint

/-- What the peer has sent and will send: what has come in, and what is on its way. -/
def stream (w : Endpoint S) : List UInt8 := received w.trace ++ w.env.rx.bytes

theorem stream_recv (w : Endpoint S) (part : Part) (size : Nat) :
    (w.ngx_recv part size).2.2.stream = w.stream := by
  rcases hrecv : w.env.rx.recv size with ⟨answer, rx⟩
  have hstream : (w.ngx_recv part size).2.2.stream =
      (received w.trace ++ answerBytes answer) ++ rx.bytes := by
    simp [ngx_recv, hrecv, stream, Obs.bytes]
  rw [hstream, List.append_assoc, stream]
  congr 1
  cases answer with
  | data got => exact (Net.Incoming.bytes_of_recv_data hrecv).symm
  | eof | again | error =>
    apply Net.Incoming.bytes_of_recv_none hrecv
    intro got hgot
    cases hgot

theorem stream_read_len {f : LenField} {fuel : Nat} {w : Endpoint S} {r : Int × Endpoint S}
    (h : w.read_len f fuel = ok r) : r.2.stream = w.stream := by
  have hbody : ∀ (x : List UInt8 × Endpoint S)
      (flow : ControlFlow (List UInt8 × Endpoint S) (Int × Endpoint S)),
      read_len_body f x = ok flow →
      flow.Holds (fun y => y.2.stream = x.2.stream) fun y => y.2.stream = x.2.stream := by
    rintro ⟨got, v⟩ flow hflow
    have hrecv := v.stream_recv f.part (NGX_NSOC_LEN_FIELD_SIZE - got.length)
    simp only [read_len_body] at hflow
    generalize v.ngx_recv f.part (NGX_NSOC_LEN_FIELD_SIZE - got.length) = r at hflow hrecv
    split_ifs at hflow
    · split at hflow <;> cases hflow <;> exact hrecv
    · cases hflow
      exact hrecv
    · cases hflow
      exact hrecv
    · cases hflow
      exact hrecv
  have hloop : ∀ x : List UInt8 × Endpoint S, loop (read_len_body f) fuel x = ok r →
      r.2.stream = x.2.stream := fun x hx => loop_keeps _ _ hbody hx
  unfold read_len at h
  split at h <;> exact hloop _ h

theorem stream_fill_buf (w : Endpoint S) (part : Part) (b : Buf) :
    (w.fill_buf part b).2.stream = w.stream := by
  have hrecv : ((w.setBuf (some b)).ngx_recv part b.room).2.2.stream = w.stream :=
    (w.setBuf (some b)).stream_recv part b.room
  simp only [fill_buf]
  split_ifs
  · rfl
  · rfl
  · exact hrecv
  · exact hrecv

theorem stream_read_again (w : Endpoint S) : w.read_again.2.stream = w.stream := by
  unfold read_again
  dsimp only
  split_ifs <;> rfl

theorem stream_read_part (w : Endpoint S) (part : Part) (size : Nat) :
    (w.read_part part size).2.stream = w.stream := by
  by_cases hsize : size = 0
  · rw [hsize, read_part_zero]
  have hdata : (w.read_handshake_data part size).2.stream = w.stream := by
    unfold read_handshake_data
    cases w.nc.buf with
    | some b => exact w.stream_fill_buf part b
    | none =>
      dsimp only
      split_ifs
      · exact stream_fill_buf _ part _
      · rfl
  have hfinish : ∀ (v : Endpoint S) (n : Int), (v.read_finish n size).2.stream = v.stream := by
    intro v n
    unfold read_finish
    dsimp only
    split_ifs <;> rfl
  rw [read_part_eq hsize]
  split_ifs
  · rw [hfinish, hdata]
  · rw [stream_read_again, hdata]
  · exact hdata

theorem stream_read_negotiation {fuel true_len : Nat} {w : Endpoint S} {r : Int × Endpoint S}
    (h : w.read_negotiation fuel true_len = ok r) : r.2.stream = w.stream := by
  refine loop_keeps stream (fun q : Int × Endpoint S => q.2.stream) ?_ h
  intro v flow hflow
  rcases v.nc.neg_data.incomplete_or with hsize | ⟨size, hsize⟩
  · rw [read_negotiation_body_of_incomplete _ _ hsize, bind_eq_ok_iff] at hflow
    obtain ⟨q, hlen, hflow⟩ := hflow
    have hq : q.2.stream = v.Hooked.stream := stream_read_len hlen
    have hq : q.2.stream = v.stream := hq
    have hlog : (q.2.log (.negotiation true_len q.2.nc.neg_data.recv_size)).stream = v.stream := by
      rw [← hq]
      simp [log, stream, Obs.bytes]
    split_ifs at hflow <;> cases hflow
    · exact (stream_read_again q.2).trans hq
    · exact hlog
    · exact hlog
    · exact hq
  · rw [read_negotiation_body_of_known hsize] at hflow
    cases hflow
    exact v.stream_read_part _ _

theorem stream_read_noise_msg {fuel : Nat} {w : Endpoint S} {r : Int × Endpoint S}
    (h : w.read_noise_msg fuel = ok r) : r.2.stream = w.stream := by
  refine loop_keeps stream (fun q : Int × Endpoint S => q.2.stream) ?_ h
  intro v flow hflow
  rcases v.nc.noise_msg.incomplete_or with hsize | ⟨size, hsize⟩
  · rw [read_noise_msg_body_of_incomplete _ hsize, bind_eq_ok_iff] at hflow
    obtain ⟨q, hlen, hflow⟩ := hflow
    have hq : q.2.stream = v.Hooked.stream := stream_read_len hlen
    have hq : q.2.stream = v.stream := hq
    split_ifs at hflow <;> cases hflow
    · exact (stream_read_again q.2).trans hq
    · exact hq
    · exact hq
  · rw [read_noise_msg_body_of_known hsize] at hflow
    cases hflow
    exact v.stream_read_part _ _

theorem stream_read_message_gate {n fuel : Nat} {w : Endpoint S} {e : ReadExit S}
    (h : loop (read_message_body fuel) n (none, w) = ok e) : (ReadExit.state e).stream = w.stream := by
  refine loop_keeps (fun x : Option Nat × Endpoint S => x.2.stream)
    (fun e => (ReadExit.state e).stream) ?_ h
  rintro ⟨size, v⟩ flow hflow
  have hread : ∀ size, gate_read fuel size v = ok flow →
      flow.Holds (fun x : Option Nat × Endpoint S => x.2.stream = v.stream)
        fun e => (ReadExit.state e).stream = v.stream := by
    intro size hgate
    simp only [gate_read, bind_eq_ok_iff] at hgate
    obtain ⟨r, hneg, hgate⟩ := hgate
    have hr := stream_read_negotiation hneg
    split_ifs at hgate <;> cases hgate <;> exact hr
  by_cases h1 : v.nc.msg_num = NGX_NSOC_1MSG
  · rw [read_message_body_first _ h1] at hflow
    cases hflow
    rfl
  by_cases hnum : v.nc.msg_num = NGX_NSOC_2MSG_OK ∨ v.nc.msg_num = NGX_NSOC_3MSG
  swap
  · rw [read_message_body_unknown _ ⟨h1, fun h2 => hnum (.inl h2), fun h3 => hnum (.inr h3)⟩] at hflow
    cases hflow
    rfl
  cases size with
  | none =>
    rw [read_message_body_read hnum] at hflow
    exact hread 0 hflow
  | some size =>
    obtain h2 | h3 := hnum
    · simp only [read_message_body] at hflow
      rw [if_neg h1, if_pos h2] at hflow
      split at hflow
      · cases hflow
        rfl
      · split at hflow
        · cases hflow
        · split at hflow
          · cases hflow
            rfl
          · exact hread size hflow
    · rw [read_message_body_third h3] at hflow
      cases hflow
      rfl

theorem stream_read_message {N : NoiseC S} {fuel : Nat} {w : Endpoint S} {r : Int × Endpoint S}
    (h : w.handshake_start_action_read_message N fuel = ok r) : r.2.stream = w.stream := by
  simp only [handshake_start_action_read_message, bind_eq_ok_iff] at h
  obtain ⟨e, hgate, hrest⟩ := h
  have he := stream_read_message_gate hgate
  cases e with
  | ret n v =>
    cases hrest
    exact he
  | leave n v =>
    dsimp only at hrest
    split_ifs at hrest
    · cases hrest
      exact he
    simp only [read_message_noise, bind_eq_ok_iff] at hrest
    obtain ⟨q, hread, hrest⟩ := hrest
    have hq : q.2.stream = w.stream := (stream_read_noise_msg hread).trans he
    have hlog : ∀ (noise : S) (message : List UInt8) (code : Nat), Endpoint.stream { q.2 with
        noise, trace := .read_message message code :: q.2.trace } = w.stream := by
      intro noise message code
      rw [← hq]
      simp [stream, Obs.bytes]
    split_ifs at hrest
    · cases hrest
      exact hq
    · split at hrest
      · cases hrest
      · split_ifs at hrest
        · cases hrest
          exact hlog q.2.noise _ _
        · cases hrest
          exact hlog q.2.noise _ _

/-- Code that does not receive leaves the stream as it is. -/
theorem stream_of_trace {w v : Endpoint S} {obs : List Obs} (htrace : v.trace = obs ++ w.trace)
    (hobs : received obs = []) (hrx : v.env.rx = w.env.rx) : v.stream = w.stream := by
  rw [stream, htrace, received_append, hobs, List.append_nil, hrx, stream]

theorem stream_write_message {N : NoiseC S} {w v : Endpoint S} {n : Int} {b : Option Buf}
    (h : w.handshake_start_action_write_message N = ok (n, b, v)) : v.stream = w.stream := by
  obtain ⟨hframe, hout⟩ := write_message_cases h
  have hrx : v.env.rx = w.env.rx := by rw [hframe.env]
  cases hout with
  | refused _ htrace | error_message _ _ _ htrace =>
    have hnothing : v.trace = [] ++ w.trace := htrace
    exact stream_of_trace hnothing rfl hrx
  | noise_error _ _ _ _ _ htrace | written _ _ _ _ _ _ _ htrace =>
    have hone : v.trace = [_] ++ w.trace := htrace
    exact stream_of_trace hone rfl hrx

theorem stream_ngx_send (w : Endpoint S) (bytes : List UInt8) :
    (w.ngx_send bytes).2.stream = w.stream := by
  unfold ngx_send
  split <;> rfl

theorem stream_write_again (w : Endpoint S) (b : Buf) : (w.write_again b).2.stream = w.stream := by
  unfold write_again
  dsimp only
  split_ifs <;> rfl

theorem stream_version_error {N : NoiseC S} {w : Endpoint S} {r : Int × Endpoint S}
    (h : w.version_error N = ok r) : r.2.stream = w.stream := by
  simp only [version_error, bind_eq_ok_iff] at h
  obtain ⟨⟨n, b, v⟩, hmsg, hrest⟩ := h
  have hv : v.stream = (w.setMsgNum NGX_NSOC_2MSG_ERR).stream := stream_write_message hmsg
  have hv : v.stream = w.stream := hv
  dsimp only at hrest
  split_ifs at hrest
  · cases hrest
    exact hv
  cases b with
  | none => cases hrest
  | some b =>
    have hsent := (v.stream_ngx_send (b.bytes.drop b.pos)).trans hv
    dsimp only at hrest
    split_ifs at hrest
    · cases hrest
      exact (stream_write_again _ b).trans hsent
    · cases hrest
      exact hsent

theorem InitFrame.stream {w v : Endpoint S} (h : InitFrame w v) : v.stream = w.stream := by
  obtain ⟨obs, htrace, hsetup⟩ := h.trace
  refine stream_of_trace htrace ?_ (by rw [h.env])
  clear htrace
  induction obs with
  | nil => rfl
  | cons o obs ih =>
    have hnone : o.bytes = [] := by
      have ho := hsetup o List.mem_cons_self
      cases o with
      | recv => cases ho
      | _ => rfl
    rw [received_cons, hnone, List.append_nil]
    exact ih fun o' ho' => hsetup o' (List.mem_cons_of_mem _ ho')

theorem StartOutcome.stream {N : NoiseC S} {w : Endpoint S}
    {flow : ControlFlow (Endpoint S) (Int × Endpoint S)} (h : StartOutcome N w flow) :
    (flowState flow).stream = w.stream := by
  cases h with
  | failed hframe => exact hframe.stream
  | started hframe _ => exact hframe.stream

theorem stream_none_phase {N : NoiseC S} {fuel : Nat} {w : Endpoint S}
    {flow : ControlFlow (Endpoint S) (Int × Endpoint S)} (h : w.none_phase N fuel = ok flow) :
    (flowState flow).stream = w.stream := by
  unfold none_phase at h
  split at h
  · exact (start_handshake_cases h).stream
  · rw [bind_eq_ok_iff] at h
    obtain ⟨r, hread, hrest⟩ := h
    have hr := stream_read_negotiation hread
    dsimp only at hrest
    split_ifs at hrest
    · cases hrest
      exact hr
    split at hrest
    · cases hrest
    · split_ifs at hrest
      · rw [bind_eq_ok_iff] at hrest
        obtain ⟨q, hreply, hrest⟩ := hrest
        cases hrest
        exact (stream_version_error hreply).trans hr
      · exact (start_handshake_cases hrest).stream.trans hr

theorem stream_send_action (N : NoiseC S) (b : Buf) (w : Endpoint S) :
    (flowState (w.send_action N b)).stream = w.stream := by
  have hframe : ∀ {v : Endpoint S}, SendFrame w v → v.stream = w.stream := by
    intro v hframe
    rw [stream, hframe.trace, hframe.rx, stream]
  have hsend := send_action_cases N b w
  generalize w.send_action N b = flow at hsend
  cases hsend with
  | refused h _ | blocked h _ _ _ _ | wait h _ _ _ _ _ | go_on h _ _ _ _ => exact hframe h

theorem stream_split_action (N : NoiseC S) (w : Endpoint S) :
    (w.split_action N).2.stream = w.stream := by
  unfold split_action
  dsimp only
  split_ifs <;> rfl

theorem stream_of_send {N : NoiseC S} {w v : Endpoint S} {n : Int} {b : Option Buf}
    {flow : ControlFlow (Endpoint S) (Int × Endpoint S)} (hv : v.stream = w.stream)
    (h : (if n ≠ NGX_OK then ok (.done (n, v)) else
      match b with
      | none => fault
      | some b => ok (v.send_action N b)) = ok flow) : (flowState flow).stream = w.stream := by
  split_ifs at h
  · cases h
    exact hv
  cases b with
  | none => cases h
  | some b =>
    cases h
    exact (stream_send_action N b v).trans hv

theorem stream_process_phase {N : NoiseC S} {fuel : Nat} {w : Endpoint S}
    {flow : ControlFlow (Endpoint S) (Int × Endpoint S)} (h : w.process_phase N fuel = ok flow) :
    (flowState flow).stream = w.stream := by
  unfold process_phase at h
  split_ifs at h
  · simp only [write_action] at h
    split_ifs at h
    · rw [bind_eq_ok_iff] at h
      obtain ⟨⟨n, b, v⟩, hmsg, hrest⟩ := h
      exact stream_of_send (stream_write_message hmsg) hrest
    · rw [bind_ok] at h
      exact stream_of_send rfl h
  · rw [bind_eq_ok_iff] at h
    obtain ⟨r, hread, hrest⟩ := h
    have hr : r.2.stream = (w.setLast 0).stream := stream_read_message hread
    dsimp only at hrest
    split_ifs at hrest <;> cases hrest <;> exact hr
  · cases h
    exact stream_split_action N w
  · cases h
    rfl

end Endpoint

end ngx_nsoc
