import NoiseSocket.Handler.Data.Recv

open Exec Exec.Result

namespace ngx_nsoc

variable {S : Type}

namespace Endpoint

/-- What a call of `ngx_nsoc_write` returns and leaves, from any state. -/
structure Wrote (w v : Endpoint S) (size : Nat) (n : Int) : Prop where
  code : n = size ∨ n = 0 ∨ n = NGX_AGAIN ∨ n = NGX_ERROR
  nc : v.nc = { w.nc with to_send := v.nc.to_send, send_buf := v.nc.send_buf }
  c : v.c = w.c
  admitted : n ≠ NGX_ERROR → size - 2 * NGX_NSOC_LEN_FIELD_SIZE ≤ w.nc.buffer_size
  sent : n = size → v.nc.to_send = 0 ∧ v.nc.send_buf = none
  kept : w.nc.send_buf = none → v.nc.send_buf = none
  under_way : n = 0 ∨ n = NGX_AGAIN → v.nc.to_send ≠ 0

theorem ngx_send_env (w : Endpoint S) (bytes : List UInt8) :
    (w.ngx_send bytes).2 = { w with env := (w.ngx_send bytes).2.env } ∧
      (0 < (w.ngx_send bytes).1 ∨ (w.ngx_send bytes).1 = 0 ∨ (w.ngx_send bytes).1 = NGX_AGAIN ∨
        (w.ngx_send bytes).1 = NGX_ERROR) := by
  unfold ngx_send
  rcases w.env.sends with _ | ⟨_ | _ | _, sends⟩
  · exact ⟨rfl, by simp only; omega⟩
  · exact ⟨rfl, by simp only; omega⟩
  · exact ⟨rfl, .inr (.inr (.inl rfl))⟩
  · exact ⟨rfl, .inr (.inr (.inr rfl))⟩

/-- The loop of `ngx_nsoc_write` only sends: it returns the size when everything is out, and what
the socket said otherwise. -/
theorem write_loop_cases {size fuel : Nat} {b : RawBuf} {w : Endpoint S} {r : Int × Endpoint S}
    (h : loop (write_body size) fuel (b, w) = ok r) :
    ∃ env, (r.1 = size ∧ r.2 = ({ w with env } : Endpoint S).setSend none 0) ∨
      ((r.1 = 0 ∨ r.1 = NGX_AGAIN ∨ r.1 = NGX_ERROR) ∧ r.2 = { w with env }) := by
  refine loop_invariant (fun s => ∃ env, s.2 = { w with env })
    (fun r => ∃ env, (r.1 = (size : Int) ∧ r.2 = ({ w with env } : Endpoint S).setSend none 0) ∨
      ((r.1 = 0 ∨ r.1 = NGX_AGAIN ∨ r.1 = NGX_ERROR) ∧ r.2 = { w with env })) ?_ ?_ ⟨w.env, rfl⟩ h
  · rintro ⟨b, v⟩ ⟨b', v'⟩ ⟨env, rfl⟩ hbody
    obtain ⟨hsend, -⟩ := ngx_send_env { w with env } (w.mem.read b.pos (b.last - b.pos))
    simp only [write_body] at hbody
    split_ifs at hbody <;> cases hbody
    exact ⟨_, hsend⟩
  · rintro ⟨b, v⟩ result ⟨env, rfl⟩ hbody
    obtain ⟨hsend, hcode⟩ := ngx_send_env { w with env } (w.mem.read b.pos (b.last - b.pos))
    simp only [write_body] at hbody
    split_ifs at hbody with hpos hlast <;> cases hbody
    · exact ⟨_, .inl ⟨rfl, congrArg (fun v => v.setSend none 0) hsend⟩⟩
    · exact ⟨_, .inr ⟨hcode.resolve_left hpos, hsend⟩⟩

/-- What sealing a payload leaves: a frame under way, or nothing. -/
theorem write_frame_cases (N : NoiseC S) (w : Endpoint S) (data size : Nat) :
    ∃ mem noise env send_buf to_send, (w.write_frame N data size).2 =
        { w with mem, noise, env, nc := { w.nc with send_buf, to_send } } ∧
      (w.nc.send_buf = none → send_buf = none) ∧
      ((w.write_frame N data size).1 ≠ none → to_send ≠ 0) := by
  simp only [write_frame]
  split_ifs
  · exact ⟨_, _, _, none, 0, rfl, fun _ => rfl, by simp⟩
  · exact ⟨_, _, _, w.nc.send_buf, _, rfl, id, fun _ => by simp⟩
  · exact ⟨w.mem, w.noise, w.ngx_alloc.2.env, w.nc.send_buf, w.nc.to_send, rfl, id, by simp⟩

/-- A call that goes on to send returns what its loop returns. -/
theorem wrote_of_loop {size fuel : Nat} {b : RawBuf} {w v : Endpoint S} {r : Int × Endpoint S}
    (hsize : 2 * NGX_NSOC_LEN_FIELD_SIZE ≤ size)
    (hroom : size - 2 * NGX_NSOC_LEN_FIELD_SIZE ≤ w.nc.buffer_size)
    (hnc : v.nc = { w.nc with to_send := v.nc.to_send, send_buf := v.nc.send_buf }) (hc : v.c = w.c)
    (hkept : w.nc.send_buf = none → v.nc.send_buf = none) (hto_send : v.nc.to_send ≠ 0)
    (hloop : loop (write_body size) fuel (b, v) = ok r) : Wrote w r.2 size r.1 := by
  simp only [NGX_NSOC_LEN_FIELD_SIZE] at hsize
  obtain ⟨env, ⟨hcode, hv⟩ | ⟨hcode, hv⟩⟩ := write_loop_cases hloop
  · rw [hcode, hv]
    refine ⟨.inl rfl, ?_, hc, fun _ => hroom, fun _ => ⟨rfl, rfl⟩, fun _ => rfl, ?_⟩
    · show { v.nc with send_buf := none, to_send := 0 } = _
      rw [hnc]
      rfl
    · intro hn
      simp only [NGX_AGAIN] at hn
      omega
  · rw [hv]
    refine ⟨.inr hcode, hnc, hc, fun _ => hroom, ?_, hkept, fun _ => hto_send⟩
    intro hn
    simp only [NGX_AGAIN, NGX_ERROR] at hcode
    omega

/-- A call that fails in front of its loop. -/
theorem wrote_of_error {size : Nat} {w v : Endpoint S}
    (hnc : v.nc = { w.nc with to_send := v.nc.to_send, send_buf := v.nc.send_buf }) (hc : v.c = w.c)
    (hkept : w.nc.send_buf = none → v.nc.send_buf = none) : Wrote w v size NGX_ERROR := by
  refine ⟨.inr (.inr (.inr rfl)), hnc, hc, absurd rfl, ?_, hkept, by simp⟩
  intro hn
  simp only [NGX_ERROR] at hn
  omega

/-- The outcome of a call of `ngx_nsoc_write`. -/
theorem write_outcome {N : NoiseC S} {fuel data size : Nat} {w : Endpoint S} {r : Int × Endpoint S}
    (h : w.write N fuel data size = ok r) : Wrote w r.2 size r.1 := by
  unfold write at h
  split_ifs at h with hargs hid hroom hto_send
  · cases h
    exact wrote_of_error rfl rfl id
  · cases h
    exact wrote_of_error rfl rfl id
  · cases h
    exact wrote_of_error rfl rfl id
  · obtain ⟨mem, noise, env, send_buf, to_send, hframe, hkept, hunder_way⟩ :=
      write_frame_cases N w data (size - 2 * NGX_NSOC_LEN_FIELD_SIZE)
    split at h
    · rename_i v hcall
      rw [hcall] at hframe
      obtain rfl := hframe
      cases h
      exact wrote_of_error rfl rfl hkept
    · rename_i b v hcall
      rw [hcall] at hframe hunder_way
      obtain rfl := hframe
      exact wrote_of_loop (by omega) (by omega) (by rfl) (by rfl) hkept (hunder_way (by simp)) h
  · split at h
    · cases h
    · rename_i b hb
      exact wrote_of_loop (by omega) (by omega) rfl rfl id hto_send h

/-- Behind a frame that did not go out whole the next call that is not refused has no buffer to go
on with. -/
theorem write_of_under_way {N : NoiseC S} {fuel data size : Nat} {w : Endpoint S} {r : Int × Endpoint S}
    (hto_send : w.nc.to_send ≠ 0) (hsend_buf : w.nc.send_buf = none)
    (h : w.write N fuel data size = ok r) : r = (NGX_ERROR, w) := by
  unfold write at h
  split_ifs at h
  · exact (Result.ok.inj h).symm
  · exact (Result.ok.inj h).symm
  · exact (Result.ok.inj h).symm
  · rw [hsend_buf] at h
    cases h

end Endpoint

end ngx_nsoc
