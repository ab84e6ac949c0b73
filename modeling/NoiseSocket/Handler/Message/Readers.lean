import NoiseSocket.Handler.Message.Cases

open Exec Exec.Result

namespace ngx_nsoc

variable {S : Type}

/-- The condition under which the readers go for the length first. -/
def SizeField.incomplete : SizeField → Bool
  | .known _ => false
  | _ => true

theorem SizeField.incomplete_or (f : SizeField) :
    f.incomplete = true ∨ ∃ size, f = .known size := by
  cases f <;> simp [incomplete]

theorem LenAnswer.code_cases (a : LenAnswer) :
    a.code = NGX_OK ∨ (∃ saved, a = .again saved) ∨ ∃ saved, a = .error saved := by
  cases a <;> simp [code]

namespace Endpoint

/-- The connection as the readers hand it to the length readers. -/
def Hooked (w : Endpoint S) : Endpoint S := w.setHandlers .handshake_handler

theorem read_negotiation_body_of_known {fuel true_len : Nat} {w : Endpoint S} {size : Nat}
    (h : w.nc.neg_data = .known size) :
    w.read_negotiation_body fuel true_len = ok (.done (w.read_part (.neg_data size) size)) := by
  simp [read_negotiation_body, h]

theorem read_negotiation_body_of_incomplete (fuel true_len : Nat) {w : Endpoint S}
    (h : w.nc.neg_data.incomplete) :
    w.read_negotiation_body fuel true_len =
      w.Hooked.read_len .neg_data fuel >>= fun r =>
        if r.1 = NGX_AGAIN then ok (.done r.2.read_again)
        else if r.1 ≠ NGX_ERROR then
          if r.2.nc.neg_data.recv_size = some true_len then
            ok (.cont (r.2.log (.negotiation true_len r.2.nc.neg_data.recv_size)))
          else ok (.done (NGX_ERROR, r.2.log (.negotiation true_len r.2.nc.neg_data.recv_size)))
        else ok (.done r) := by
  unfold read_negotiation_body
  split
  · rename_i hsize
    simp [hsize, SizeField.incomplete] at h
  · rfl

theorem read_noise_msg_body_of_known {fuel : Nat} {w : Endpoint S} {size : Nat}
    (h : w.nc.noise_msg = .known size) :
    w.read_noise_msg_body fuel = ok (.done (w.read_part (.msg_data size) size)) := by
  simp [read_noise_msg_body, h]

theorem read_noise_msg_body_of_incomplete (fuel : Nat) {w : Endpoint S}
    (h : w.nc.noise_msg.incomplete) :
    w.read_noise_msg_body fuel =
      w.Hooked.read_len .noise_msg fuel >>= fun r =>
        if r.1 = NGX_AGAIN then ok (.done r.2.read_again)
        else if r.1 ≠ NGX_ERROR then ok (.cont r.2)
        else ok (.done r) := by
  unfold read_noise_msg_body
  split
  · rename_i hsize
    simp [hsize, SizeField.incomplete] at h
  · rfl

/-- Everything `ngx_nsoc_read_negotiation` can do: `v` is the state behind the
length, and `answer` what the length reader got. -/
inductive NegSteps (true_len : Nat) (w : Endpoint S) (r : Int × Endpoint S) : Prop where
  | known (size : Nat) (hsize : w.nc.neg_data = .known size)
      (hr : r = w.read_part (.neg_data size) size)
  | again (v : Endpoint S) (saved : SizeField) (hsize : w.nc.neg_data.incomplete)
      (hlen : LenResult .neg_data w.Hooked v (take_len w.nc.neg_data w.env.rx))
      (htaken : (take_len w.nc.neg_data w.env.rx).1 = .again saved)
      (hr : r = v.read_again)
  | error (v : Endpoint S) (saved : SizeField) (hsize : w.nc.neg_data.incomplete)
      (hlen : LenResult .neg_data w.Hooked v (take_len w.nc.neg_data w.env.rx))
      (htaken : (take_len w.nc.neg_data w.env.rx).1 = .error saved)
      (hr : r = (NGX_ERROR, v))
  | mismatch (v : Endpoint S) (hsize : w.nc.neg_data.incomplete)
      (hlen : LenResult .neg_data w.Hooked v (take_len w.nc.neg_data w.env.rx))
      (hcode : (take_len w.nc.neg_data w.env.rx).1.code = NGX_OK)
      (hne : (take_len w.nc.neg_data w.env.rx).1.size.recv_size ≠ some true_len)
      (hr : r = (NGX_ERROR, v.log (.negotiation true_len v.nc.neg_data.recv_size)))
  | accepted (v : Endpoint S) (hsize : w.nc.neg_data.incomplete)
      (hlen : LenResult .neg_data w.Hooked v (take_len w.nc.neg_data w.env.rx))
      (hcode : (take_len w.nc.neg_data w.env.rx).1.code = NGX_OK)
      (hknown : (take_len w.nc.neg_data w.env.rx).1.size = .known true_len)
      (hr : r = (v.log (.negotiation true_len (some true_len))).read_part
        (.neg_data true_len) true_len)

/-- Everything `ngx_nsoc_read_noise_msg` can do if it returns. -/
inductive MsgSteps (w : Endpoint S) (r : Int × Endpoint S) : Prop where
  | known (size : Nat) (hsize : w.nc.noise_msg = .known size)
      (hr : r = w.read_part (.msg_data size) size)
  | again (v : Endpoint S) (saved : SizeField) (hsize : w.nc.noise_msg.incomplete)
      (hlen : LenResult .noise_msg w.Hooked v (take_len w.nc.noise_msg w.env.rx))
      (htaken : (take_len w.nc.noise_msg w.env.rx).1 = .again saved)
      (hr : r = v.read_again)
  | error (v : Endpoint S) (saved : SizeField) (hsize : w.nc.noise_msg.incomplete)
      (hlen : LenResult .noise_msg w.Hooked v (take_len w.nc.noise_msg w.env.rx))
      (htaken : (take_len w.nc.noise_msg w.env.rx).1 = .error saved)
      (hr : r = (NGX_ERROR, v))
  | accepted (v : Endpoint S) (size : Nat) (hsize : w.nc.noise_msg.incomplete)
      (hlen : LenResult .noise_msg w.Hooked v (take_len w.nc.noise_msg w.env.rx))
      (hcode : (take_len w.nc.noise_msg w.env.rx).1.code = NGX_OK)
      (hknown : (take_len w.nc.noise_msg w.env.rx).1.size = .known size)
      (hr : r = v.read_part (.msg_data size) size)

/-- The stream has closed at the length of a noise message: the length reader
reports zero and leaves the size unset. -/
def Starves (size : SizeField) (rx : Net.Incoming) : Prop :=
  size.incomplete = true ∧ (take_len size rx).1 = .closed .unset

instance (size : SizeField) (rx : Net.Incoming) : Decidable (Starves size rx) :=
  inferInstanceAs (Decidable (_ ∧ _))

end Endpoint

/-- What a length reader that returns zero has left in the size field. -/
theorem size_of_code_ok {size : SizeField} {rx : Net.Incoming}
    (h : (take_len size rx).1.code = NGX_OK) :
    (∃ k, (take_len size rx).1.size = .known k) ∨
      (take_len size rx).1 = .closed .unset := by
  unfold take_len at h ⊢
  split at h
  · rcases rx with ⟨_ | ⟨_ | _ | _, _⟩, _ | _⟩ <;>
      simp_all [second_byte, LenAnswer.code, LenAnswer.size]
  · rcases rx with ⟨_ | ⟨⟨_, _ | _⟩ | _ | _, rest⟩, _ | _⟩
    all_goals first
      | (rcases rest with _ | ⟨_ | _ | _, _⟩ <;>
          simp_all [second_byte, both_bytes, LenAnswer.code, LenAnswer.size])
      | simp_all [both_bytes, LenAnswer.code, LenAnswer.size]

/-- A stream that is left behind a length that was never received is at its end. -/
theorem rx_of_taken_closed {size saved : SizeField} {rx : Net.Incoming}
    (h : (take_len size rx).1 = .closed saved) : (take_len size rx).2 = ⟨[], true⟩ := by
  unfold take_len at h ⊢
  split at h
  · rcases rx with ⟨_ | ⟨_ | _ | _, _⟩, _ | _⟩ <;> simp_all [second_byte]
  · rcases rx with ⟨_ | ⟨⟨_, _ | _⟩ | _ | _, rest⟩, _ | _⟩
    all_goals first
      | (rcases rest with _ | ⟨_ | _ | _, _⟩ <;> simp_all [second_byte, both_bytes])
      | simp_all [both_bytes]

namespace Endpoint

theorem read_negotiation_of_known {fuel true_len : Nat} {w : Endpoint S} {size : Nat}
    (hfuel : 0 < fuel) (h : w.nc.neg_data = .known size) :
    w.read_negotiation fuel true_len = ok (w.read_part (.neg_data size) size) :=
  loop_of_done hfuel (read_negotiation_body_of_known h)

theorem read_noise_msg_of_known {fuel : Nat} {w : Endpoint S} {size : Nat}
    (hfuel : 0 < fuel) (h : w.nc.noise_msg = .known size) :
    w.read_noise_msg fuel = ok (w.read_part (.msg_data size) size) :=
  loop_of_done hfuel (read_noise_msg_body_of_known h)

/-- `ngx_nsoc_read_negotiation` always returns. -/
theorem read_negotiation_spec {fuel : Nat} (true_len : Nat) (w : Endpoint S) (hfuel : 2 ≤ fuel) :
    ∃ r, w.read_negotiation fuel true_len = ok r ∧ NegSteps true_len w r := by
  rcases w.nc.neg_data.incomplete_or with hsize | ⟨size, hsize⟩
  swap
  · exact ⟨_, read_negotiation_of_known (by omega) hsize, .known size hsize rfl⟩
  obtain ⟨v, hlen, hresult⟩ := w.Hooked.read_len_spec .neg_data hfuel
  change LenResult .neg_data w.Hooked v (take_len w.nc.neg_data w.env.rx) at hresult
  have hv : v.nc.neg_data = (take_len w.nc.neg_data w.env.rx).1.size := hresult.size
  have hbody := read_negotiation_body_of_incomplete fuel true_len hsize
  rw [hlen, bind_ok] at hbody
  change _ = if (take_len w.nc.neg_data w.env.rx).1.code = NGX_AGAIN then _ else
    if (take_len w.nc.neg_data w.env.rx).1.code ≠ NGX_ERROR then _ else _ at hbody
  rcases (take_len w.nc.neg_data w.env.rx).1.code_cases with hcode | ⟨saved, htaken⟩ | ⟨saved, htaken⟩
  · rw [hcode, if_neg (by simp), if_pos (by simp)] at hbody
    by_cases heq : v.nc.neg_data.recv_size = some true_len
    · have hknown : v.nc.neg_data = .known true_len := by
        rcases size_of_code_ok hcode with ⟨k, hk⟩ | hclosed
        · rw [hv, hk] at heq ⊢
          simpa [SizeField.recv_size] using heq
        · rw [hv, hclosed] at heq
          simp [LenAnswer.size, SizeField.recv_size] at heq
      rw [if_pos heq, heq] at hbody
      obtain ⟨k, rfl⟩ : ∃ k, fuel = k + 1 := ⟨fuel - 1, by omega⟩
      refine ⟨_, ?_, .accepted v hsize hresult hcode (hv.symm.trans hknown) rfl⟩
      rw [read_negotiation, loop_of_cont hbody]
      exact loop_of_done (by omega) (read_negotiation_body_of_known hknown)
    · rw [if_neg heq] at hbody
      exact ⟨_, loop_of_done (by omega) hbody, .mismatch v hsize hresult hcode (hv ▸ heq) rfl⟩
  · rw [htaken, if_pos (by simp [LenAnswer.code])] at hbody
    exact ⟨_, loop_of_done (by omega) hbody, .again v saved hsize hresult htaken rfl⟩
  · rw [htaken, if_neg (by simp [LenAnswer.code]), if_neg (by simp [LenAnswer.code])] at hbody
    have hcode : (take_len w.nc.neg_data w.env.rx).1.code = NGX_ERROR := by rw [htaken]; rfl
    refine ⟨_, loop_of_done (by omega) hbody, .error v saved hsize hresult htaken ?_⟩
    exact Prod.ext hcode rfl

/-- Behind the last byte of a closed stream, with the size unset, every pass of
`ngx_nsoc_read_noise_msg` ends where it began. -/
theorem read_noise_msg_loop_of_closed {fuel : Nat} {w : Endpoint S} (hfuel : 2 ≤ fuel)
    (hrx : w.env.rx = ⟨[], true⟩) (hsize : w.nc.noise_msg = .unset) (k : Nat) :
    loop (read_noise_msg_body fuel) k w = div := by
  refine loop_eq_div (fun v : Endpoint S => v.env.rx = ⟨[], true⟩ ∧ v.nc.noise_msg = .unset)
    ?_ k ⟨hrx, hsize⟩
  rintro v ⟨hrx, hsize⟩
  obtain ⟨v', hlen, hresult⟩ := v.Hooked.read_len_spec .noise_msg hfuel
  change LenResult .noise_msg v.Hooked v' (take_len v.nc.noise_msg v.env.rx) at hresult
  change _ = ok ((take_len v.nc.noise_msg v.env.rx).1.code, v') at hlen
  rw [hsize, hrx] at hlen hresult
  refine ⟨v', ?_, hresult.rx, hresult.size⟩
  rw [read_noise_msg_body_of_incomplete _ (by rw [hsize]; rfl), hlen]
  rfl

/-- `ngx_nsoc_read_noise_msg` returns unless the stream has closed at the length. -/
theorem read_noise_msg_spec {fuel : Nat} (w : Endpoint S) (hfuel : 2 ≤ fuel) :
    Starves w.nc.noise_msg w.env.rx ∧ w.read_noise_msg fuel = div ∨
      ¬ Starves w.nc.noise_msg w.env.rx ∧
        ∃ r, w.read_noise_msg fuel = ok r ∧ MsgSteps w r := by
  rcases w.nc.noise_msg.incomplete_or with hsize | ⟨size, hsize⟩
  swap
  · refine .inr ⟨?_, _, read_noise_msg_of_known (by omega) hsize, .known size hsize rfl⟩
    simp [Starves, hsize, SizeField.incomplete]
  obtain ⟨v, hlen, hresult⟩ := w.Hooked.read_len_spec .noise_msg hfuel
  change LenResult .noise_msg w.Hooked v (take_len w.nc.noise_msg w.env.rx) at hresult
  have hv : v.nc.noise_msg = (take_len w.nc.noise_msg w.env.rx).1.size := hresult.size
  have hbody := read_noise_msg_body_of_incomplete fuel hsize
  rw [hlen, bind_ok] at hbody
  change _ = if (take_len w.nc.noise_msg w.env.rx).1.code = NGX_AGAIN then _ else
    if (take_len w.nc.noise_msg w.env.rx).1.code ≠ NGX_ERROR then _ else _ at hbody
  rcases (take_len w.nc.noise_msg w.env.rx).1.code_cases with hcode | ⟨saved, htaken⟩ | ⟨saved, htaken⟩
  · rw [hcode, if_neg (by simp), if_pos (by simp)] at hbody
    obtain ⟨k, rfl⟩ : ∃ k, fuel = k + 1 := ⟨fuel - 1, by omega⟩
    rcases size_of_code_ok hcode with ⟨size, hknown⟩ | hclosed
    · refine .inr ⟨?_, _, ?_, .accepted v size hsize hresult hcode hknown rfl⟩
      · rintro ⟨-, hclosed⟩
        rw [hclosed] at hknown
        cases hknown
      · rw [read_noise_msg, loop_of_cont hbody]
        exact loop_of_done (by omega) (read_noise_msg_body_of_known (hv.trans hknown))
    · refine .inl ⟨⟨hsize, hclosed⟩, ?_⟩
      have hrx : v.env.rx = ⟨[], true⟩ := hresult.rx.trans (rx_of_taken_closed hclosed)
      rw [read_noise_msg, loop_of_cont hbody]
      exact read_noise_msg_loop_of_closed hfuel hrx (by rw [hv, hclosed]; rfl) k
  · rw [htaken, if_pos (by simp [LenAnswer.code])] at hbody
    refine .inr ⟨by simp [Starves, htaken], _, loop_of_done (by omega) hbody, ?_⟩
    exact .again v saved hsize hresult htaken rfl
  · rw [htaken, if_neg (by simp [LenAnswer.code]), if_neg (by simp [LenAnswer.code])] at hbody
    have hcode : (take_len w.nc.noise_msg w.env.rx).1.code = NGX_ERROR := by rw [htaken]; rfl
    refine .inr ⟨by simp [Starves, htaken], _, loop_of_done (by omega) hbody, ?_⟩
    exact .error v saved hsize hresult htaken (Prod.ext hcode rfl)

theorem read_negotiation_mono {fuel more true_len : Nat} {w : Endpoint S} {r : Int × Endpoint S}
    (hle : fuel ≤ more) (h : w.read_negotiation fuel true_len = ok r) :
    w.read_negotiation more true_len = ok r := by
  refine loop_mono ?_ hle h
  intro v flow hflow
  rcases v.nc.neg_data.incomplete_or with hsize | ⟨size, hsize⟩
  · rw [read_negotiation_body_of_incomplete _ _ hsize, bind_eq_ok_iff] at hflow ⊢
    obtain ⟨r, hlen, hrest⟩ := hflow
    exact ⟨r, read_len_mono hle hlen, hrest⟩
  · rwa [read_negotiation_body_of_known hsize] at hflow ⊢

theorem read_noise_msg_mono {fuel more : Nat} {w : Endpoint S} {r : Int × Endpoint S}
    (hle : fuel ≤ more) (h : w.read_noise_msg fuel = ok r) : w.read_noise_msg more = ok r := by
  refine loop_mono ?_ hle h
  intro v flow hflow
  rcases v.nc.noise_msg.incomplete_or with hsize | ⟨size, hsize⟩
  · rw [read_noise_msg_body_of_incomplete _ hsize, bind_eq_ok_iff] at hflow ⊢
    obtain ⟨r, hlen, hrest⟩ := hflow
    exact ⟨r, read_len_mono hle hlen, hrest⟩
  · rwa [read_noise_msg_body_of_known hsize] at hflow ⊢

theorem read_negotiation_cases {fuel true_len : Nat} {w : Endpoint S} {r : Int × Endpoint S}
    (h : w.read_negotiation fuel true_len = ok r) : NegSteps true_len w r := by
  obtain ⟨r', hr, hsteps⟩ := w.read_negotiation_spec true_len (Nat.le_add_left 2 fuel)
  rw [read_negotiation_mono (by omega) h] at hr
  cases hr
  exact hsteps

theorem read_noise_msg_cases {fuel : Nat} {w : Endpoint S} {r : Int × Endpoint S}
    (h : w.read_noise_msg fuel = ok r) : MsgSteps w r := by
  have hmore := read_noise_msg_mono (Nat.le_add_right fuel 2) h
  rcases w.read_noise_msg_spec (Nat.le_add_left 2 fuel) with ⟨-, hdiv⟩ | ⟨-, r', hr, hsteps⟩
  · rw [hmore] at hdiv
    cases hdiv
  · rw [hmore] at hr
    cases hr
    exact hsteps

end Endpoint

end ngx_nsoc
