import NoiseSocket.Handler.Data.Outcome
import NoiseSocket.Handler.Data.RoundTrip

open Exec Exec.Result

namespace ngx_nsoc

variable {S : Type}

/-- The socket takes `len` bytes, in one or more portions, before it answers anything else. -/
def takes_whole : Nat → List Sent → Bool
  | 0, _ => true
  | _ + 1, [] => true
  | len + 1, .count (n + 1) :: sends => takes_whole (len - n) sends
  | _ + 1, _ :: _ => false

@[simp]
theorem takes_whole_zero (sends : List Sent) : takes_whole 0 sends = true := by
  cases sends <;> rfl

namespace Endpoint

/-- One `c->send`: a portion goes out and the rest is up to the rest of the script, or the socket
does not take all that is offered. -/
theorem ngx_send_takes {w : Endpoint S} {bytes : List UInt8} (hpos : 0 < bytes.length) :
    (∃ (n : Nat) (sends : List Sent), w.ngx_send bytes = ((n : Int), w.sent (bytes.take n) sends) ∧
      0 < n ∧ n ≤ bytes.length ∧
      takes_whole bytes.length w.env.sends = takes_whole (bytes.length - n) sends) ∨
    (w.ngx_send bytes).1 ≤ 0 ∧ takes_whole bytes.length w.env.sends = false := by
  obtain ⟨len, hlen⟩ : ∃ len, bytes.length = len + 1 := ⟨bytes.length - 1, by omega⟩
  unfold ngx_send
  cases hsends : w.env.sends with
  | nil =>
    refine .inl ⟨bytes.length, [], ?_, hpos, Nat.le_refl _, ?_⟩
    · simp [sent, hsends]
    · rw [hlen, Nat.sub_self, takes_whole_zero]
      rfl
  | cons answer sends =>
    cases answer with
    | again => exact .inr ⟨by simp, by rw [hlen]; rfl⟩
    | error => exact .inr ⟨by simp, by rw [hlen]; rfl⟩
    | count limit =>
      cases limit with
      | zero => exact .inr ⟨by simp, by rw [hlen]; rfl⟩
      | succ limit =>
        refine .inl ⟨(bytes.take (limit + 1)).length, sends, ?_, ?_, ?_, ?_⟩
        · simp only [sent, List.length_take, ← List.take_eq_take_min]
        · simp only [List.length_take]
          omega
        · simp only [List.length_take]
          omega
        · simp only [List.length_take, hlen, takes_whole]
          congr 1
          omega

/-- The loop of `ngx_nsoc_write`: the whole frame goes out where the socket takes it, and the call ends
in front of its end otherwise. The induction is on the passes, each of which sends at least one byte. -/
theorem write_loop_takes (size : Nat) {fuel : Nat} {b : RawBuf} {w : Endpoint S} (hpos : b.pos < b.last)
    (hfuel : b.last - b.pos ≤ fuel) : ∃ r, loop (write_body size) fuel (b, w) = ok r ∧
      (takes_whole (b.last - b.pos) w.env.sends = true ∧ (∃ sends,
          r = ((size : Int), (w.sent (w.mem.read b.pos (b.last - b.pos)) sends).setSend none 0)) ∨
        takes_whole (b.last - b.pos) w.env.sends = false ∧ r.1 ≤ 0) := by
  induction fuel generalizing b w with
  | zero => omega
  | succ fuel ih =>
    have htakes := ngx_send_takes (w := w)
      (show 0 < (w.mem.read b.pos (b.last - b.pos)).length by simp; omega)
    rw [Memory.length_read] at htakes
    obtain ⟨n, sends, hsend, hn, hle, hrest⟩ | ⟨hcode, hstop⟩ := htakes
    · have hcode : (0 : Int) < n := by omega
      have hsplit := w.mem.read_add b.pos n (b.last - b.pos - n)
      rw [show n + (b.last - b.pos - n) = b.last - b.pos by omega] at hsplit
      have htake : (w.mem.read b.pos (b.last - b.pos)).take n = w.mem.read b.pos n := by
        rw [hsplit, List.take_left' (by simp)]
      rw [htake] at hsend
      rw [hrest]
      by_cases hall : b.pos + n = b.last
      · obtain rfl : n = b.last - b.pos := by omega
        refine ⟨_, loop_of_done (Nat.succ_pos _) ?_, .inl ⟨by rw [Nat.sub_self, takes_whole_zero], sends, rfl⟩⟩
        simp only [write_body, hsend, hcode, if_true, Int.toNat_natCast, hall]
      · have hbody : write_body size (b, w) =
            ok (.cont ({ b with pos := b.pos + n }, w.sent (w.mem.read b.pos n) sends)) := by
          simp only [write_body, hsend, hcode, if_true, Int.toNat_natCast, if_neg hall]
        obtain ⟨r, hloop, houtcome⟩ := ih (b := { b with pos := b.pos + n })
          (w := w.sent (w.mem.read b.pos n) sends) (show b.pos + n < b.last by omega)
          (show b.last - (b.pos + n) ≤ fuel by omega)
        refine ⟨r, (loop_of_cont hbody).trans hloop, ?_⟩
        rw [Nat.sub_sub]
        obtain ⟨hgoes, sends', rfl⟩ | ⟨hstop, hcode⟩ := houtcome
        · refine .inl ⟨hgoes, sends', ?_⟩
          rw [hsplit, Nat.sub_sub]
          simp [sent, List.append_assoc]
        · exact .inr ⟨hstop, hcode⟩
    · refine ⟨_, loop_of_done (Nat.succ_pos _) ?_, .inr ⟨hstop, hcode⟩⟩
      simp only [write_body]
      rw [if_neg (by omega)]

/-- `ngx_nsoc_write` is called with a block again and again, at most `calls` times, until it returns the
size of the block. -/
def write_until (N : NoiseC S) (fuel data size : Nat) : Nat → Endpoint S → Result (Int × Endpoint S)
  | 0, w => ok (NGX_AGAIN, w)
  | calls + 1, w => do
    let r ← w.write N fuel data size
    if r.1 = size then ok r else write_until N fuel data size calls r.2

/-- The block at `data` is sealed once, as `frame` that leaves noise-c in the state `noise`, and the
calls send it: none has undefined behaviour, behind each of them `nc->send_buf` holds what has not gone
out where `nc->to_send` is not zero, and behind the last one the frame has gone out. -/
def Resumes (N : NoiseC S) (fuel data size : Nat) (frame : List UInt8) (noise : S) (w : Endpoint S) :
    Prop :=
  ∀ calls, ∃ r, write_until N fuel data size calls w = ok r ∧
    (r.1 = size → r.2.noise = noise ∧ r.2.env.tx = w.env.tx ++ frame ∧ r.2.nc.to_send = 0) ∧
    (r.2.nc.to_send ≠ 0 → ∃ b, r.2.nc.send_buf = some b ∧
      r.2.env.tx ++ r.2.mem.read b.pos (b.last - b.pos) = w.env.tx ++ frame)

/-- A connection that takes a block of `size` bytes, with no frame under way. -/
structure Idle (w : Endpoint S) (size : Nat) : Prop where
  connection : w.nc.connection = w.c.id
  buffer_size : size ≤ w.nc.buffer_size
  to_send : w.nc.to_send = 0
  send_buf : w.nc.send_buf = none
  alloc : w.ngx_alloc.1 = true

section

variable {N : NoiseC S} {fuel data : Nat} {payload sealed : List UInt8} {noise : S} {w : Endpoint S}

/-- The first call with a block: it seals the payload and sends the frame, whole or not. -/
theorem Idle.write (hw : w.Idle payload.length) (hdata : data ≠ 0)
    (hpayload : w.mem.read (data + 4) payload.length = payload)
    (hseal : N.cipherstate_encrypt (lenBytes payload.length ++ payload) w.noise =
      ((NOISE_ERROR_NONE, sealed), noise))
    (hfuel : sealed.length + 2 ≤ fuel) :
    ∃ r, w.write N fuel data (payload.length + 4) = ok r ∧
      (takes_whole (sealed.length + 2) w.env.sends = true ∧ r.1 = (payload.length + 4 : Nat) ∧
          r.2.noise = noise ∧ r.2.env.tx = w.env.tx ++ (lenBytes sealed.length ++ sealed) ∧
          r.2.nc.to_send = 0 ∨
        takes_whole (sealed.length + 2) w.env.sends = false ∧ r.1 ≤ 0 ∧ r.2.nc.to_send ≠ 0 ∧
          r.2.nc.send_buf = none) := by
  obtain ⟨b, u, hsealed, hpos, hlast, hframe, hnoise, hnc, hc, henv⟩ :=
    write_frame_spec hw.alloc hpayload hseal
  have hroom := hw.buffer_size
  have hsize : payload.length + 4 - 2 * NGX_NSOC_LEN_FIELD_SIZE = payload.length :=
    Nat.add_sub_cancel _ _
  have hcall : w.write N fuel data (payload.length + 4) =
      loop (write_body (payload.length + 4)) fuel (b, u) := by
    unfold Endpoint.write
    rw [if_neg (by simp [hdata]), if_neg (not_not.mpr hw.connection), hsize, if_neg (by omega),
      if_pos hw.to_send, hsealed]
  have hlen : b.last - b.pos = sealed.length + 2 := by omega
  obtain ⟨r, hloop, houtcome⟩ := write_loop_takes (payload.length + 4) (w := u)
    (show b.pos < b.last by omega) (hlen ▸ hfuel)
  refine ⟨r, hcall.trans hloop, ?_⟩
  have hsends : u.env.sends = w.env.sends := by rw [henv]; rfl
  rw [hlen, hpos, hframe, hsends] at houtcome
  obtain ⟨hgoes, sends, rfl⟩ | ⟨hstop, hcode⟩ := houtcome
  · refine .inl ⟨hgoes, rfl, hnoise, ?_, rfl⟩
    show u.env.tx ++ _ = _
    rw [henv]
    rfl
  · obtain ⟨env, ⟨hsent, -⟩ | ⟨-, hr⟩⟩ := write_loop_cases hloop
    · omega
    · refine .inr ⟨hstop, hcode, ?_, ?_⟩
      · rw [hr, hnc]
        exact Nat.succ_ne_zero _
      · rw [hr, hnc]
        exact hw.send_buf

/-- A block goes out, in any number of calls, as its frame exactly if the socket takes the whole frame
before it first takes nothing. -/
theorem resumes_iff (hw : w.Idle payload.length) (hdata : data ≠ 0)
    (hpayload : w.mem.read (data + 4) payload.length = payload)
    (hseal : N.cipherstate_encrypt (lenBytes payload.length ++ payload) w.noise =
      ((NOISE_ERROR_NONE, sealed), noise))
    (hfuel : sealed.length + 2 ≤ fuel) :
    w.Resumes N fuel data (payload.length + 4) (lenBytes sealed.length ++ sealed) noise ↔
      takes_whole (sealed.length + 2) w.env.sends = true := by
  obtain ⟨r, hcall, hwhole⟩ := hw.write hdata hpayload hseal hfuel
  constructor
  · intro hresumes
    by_contra hstop
    obtain ⟨hgoes, -⟩ | ⟨-, hcode, hto_send, hsend_buf⟩ := hwhole
    · exact hstop hgoes
    · have hsize : r.1 ≠ ((payload.length + 4 : Nat) : Int) := by omega
      obtain ⟨r', hrun, -, hkept⟩ := hresumes 1
      have hfirst : write_until N fuel data (payload.length + 4) 1 w = ok (NGX_AGAIN, r.2) := by
        simp only [write_until, hcall, bind_ok, if_neg hsize]
      rw [hfirst] at hrun
      obtain rfl := Result.ok.inj hrun
      obtain ⟨b, hb, -⟩ := hkept hto_send
      rw [hsend_buf] at hb
      cases hb
  · intro hgoes calls
    obtain ⟨-, hcode, hnoise, htx, hto_send⟩ | ⟨hstop, -⟩ := hwhole
    · cases calls with
      | zero =>
        refine ⟨_, rfl, fun h => ?_, fun h => absurd hw.to_send h⟩
        simp only [NGX_AGAIN] at h
        omega
      | succ calls =>
        refine ⟨r, ?_, fun _ => ⟨hnoise, htx, hto_send⟩, fun h => absurd hto_send h⟩
        simp only [write_until, hcall, bind_ok, if_pos hcode]
    · rw [hgoes] at hstop
      cases hstop

end

/-- A connection with the block `[1, 2, 3]` at the address 7. -/
def block_sender (sends : List Sent) : Endpoint Pattern :=
  ({ pattern_server [] false with env := { Env.quiet [] false with sends } } : Endpoint Pattern).store 7
    [1, 2, 3]

theorem resumes_of_two_portions : (block_sender [.count 3, .count 100]).Resumes pattern_xx 100 7 7
    ([0, 21, 0, 3, 1, 2, 3] ++ Pattern.tag) (pattern_server [] false).noise :=
  (@resumes_iff _ pattern_xx 100 7 [1, 2, 3] ([0, 3, 1, 2, 3] ++ Pattern.tag) _ (block_sender _)
    ⟨rfl, by decide, rfl, rfl, rfl⟩ (by decide) rfl rfl (by decide)).mpr rfl

/-- The socket is full at first: the second call goes on with no buffer. -/
theorem not_resumes_of_full_socket : ¬ (block_sender [.again]).Resumes pattern_xx 100 7 7
    ([0, 21, 0, 3, 1, 2, 3] ++ Pattern.tag) (pattern_server [] false).noise := by
  intro h
  obtain ⟨r, hrun, -⟩ := h 2
  cases hrun

end Endpoint

end ngx_nsoc
