import NoiseSocket.Handler.Data.Calls

open Exec Exec.Result

namespace ngx_nsoc

variable {S : Type}

/-- The socket takes at least one byte of whatever it is offered. -/
def Accepts (sends : List Sent) : Prop := ∀ sent ∈ sends, ∃ n, sent = .count (n + 1)

namespace Endpoint

/-- `bytes` have gone out, and `sends` is left of the script of the socket. -/
def sent (w : Endpoint S) (bytes : List UInt8) (sends : List Sent) : Endpoint S :=
  { w with env := { w.env with sends, tx := w.env.tx ++ bytes } }

theorem ngx_send_accepts {w : Endpoint S} (hw : Accepts w.env.sends) {bytes : List UInt8}
    (hpos : 0 < bytes.length) :
    ∃ (n : Nat) (sends : List Sent), w.ngx_send bytes = ((n : Int), w.sent (bytes.take n) sends) ∧ Accepts sends ∧
      0 < n ∧ n ≤ bytes.length := by
  unfold ngx_send
  cases hsends : w.env.sends with
  | nil =>
    refine ⟨bytes.length, [], ?_, by simp [Accepts], hpos, Nat.le_refl _⟩
    simp [sent, hsends]
  | cons answer sends =>
    rw [hsends] at hw
    obtain ⟨limit, rfl⟩ := hw answer List.mem_cons_self
    have hrest : Accepts sends := fun x hx => hw x (List.mem_cons_of_mem _ hx)
    refine ⟨(bytes.take (limit + 1)).length, sends, ?_, hrest, ?_, ?_⟩
    · simp only [sent, List.length_take, ← List.take_eq_take_min]
    · simp only [List.length_take]
      omega
    · simp only [List.length_take]
      omega

/-- The loop of `ngx_nsoc_write` on such a socket: everything from `pos` to `last` goes
out. The induction is on the passes, each of which sends at least one byte. -/
theorem write_loop_spec (size : Nat) {fuel : Nat} {b : RawBuf} {w : Endpoint S}
    (hw : Accepts w.env.sends) (hpos : b.pos < b.last) (hfuel : b.last - b.pos ≤ fuel) :
    ∃ sends, Accepts sends ∧ loop (write_body size) fuel (b, w) =
      ok ((size : Int), (w.sent (w.mem.read b.pos (b.last - b.pos)) sends).setSend none 0) := by
  induction fuel generalizing b w with
  | zero => omega
  | succ fuel ih =>
    obtain ⟨n, sends, hsend, haccepts, hn, hle⟩ :=
      ngx_send_accepts hw (show 0 < (w.mem.read b.pos (b.last - b.pos)).length by simp; omega)
    rw [Memory.length_read] at hle
    have hcode : (0 : Int) < n := by omega
    have hsplit := w.mem.read_add b.pos n (b.last - b.pos - n)
    rw [show n + (b.last - b.pos - n) = b.last - b.pos by omega] at hsplit
    have htake : (w.mem.read b.pos (b.last - b.pos)).take n = w.mem.read b.pos n := by
      rw [hsplit, List.take_left' (by simp)]
    rw [htake] at hsend
    by_cases hall : b.pos + n = b.last
    · refine ⟨sends, haccepts, loop_of_done (Nat.succ_pos _) ?_⟩
      simp only [write_body, hsend, hcode, if_true, Int.toNat_natCast, hall]
      rw [show b.last - b.pos = n by omega]
    · have hbody : write_body size (b, w) =
          ok (.cont ({ b with pos := b.pos + n }, w.sent (w.mem.read b.pos n) sends)) := by
        simp only [write_body, hsend, hcode, if_true, Int.toNat_natCast, if_neg hall]
      have hnext : b.pos + n < b.last := by omega
      have hrest : b.last - (b.pos + n) ≤ fuel := by omega
      obtain ⟨sends', haccepts', hloop⟩ :=
        ih (b := { b with pos := b.pos + n }) (w := w.sent (w.mem.read b.pos n) sends) haccepts hnext hrest
      refine ⟨sends', haccepts', ?_⟩
      rw [loop_of_cont hbody, hloop, hsplit, show b.last - b.pos - n = b.last - (b.pos + n) by omega]
      simp [sent, List.append_assoc]

/-- A connection that can send frames of every size, none of which is under way. -/
structure Sender (w : Endpoint S) : Prop where
  connection : w.nc.connection = w.c.id
  buffer_size : w.nc.buffer_size = NOISE_PROTOCOL_PAYLOAD_SIZE
  to_send : w.nc.to_send = 0
  allocs : w.env.allocs = []
  sends : Accepts w.env.sends

section

variable {N : NoiseC S} {fuel data : Nat} {payload sealed : List UInt8} {noise : S} {w : Endpoint S}

/-- What sealing a payload leaves: the frame at `data`, behind its length. -/
theorem write_frame_spec (halloc : w.ngx_alloc.1 = true)
    (hpayload : w.mem.read (data + 4) payload.length = payload)
    (hseal : N.cipherstate_encrypt (lenBytes payload.length ++ payload) w.noise =
      ((NOISE_ERROR_NONE, sealed), noise)) :
    ∃ (b : RawBuf) (u : Endpoint S), w.write_frame N data payload.length = (some b, u) ∧
      b.pos = data ∧ b.last = data + (sealed.length + 2) ∧
      u.mem.read data (sealed.length + 2) = lenBytes sealed.length ++ sealed ∧ u.noise = noise ∧
      u.nc = { w.nc with to_send := sealed.length + 2 } ∧ u.c = w.c ∧ u.env = w.ngx_alloc.2.env := by
  have hplain := w.mem.read_write_front (data + 2) (lenBytes payload.length) payload hpayload
  rw [show (lenBytes payload.length ++ payload).length = payload.length + 2 by simp [lenBytes]] at hplain
  generalize hstored : w.mem.write (data + 2) (lenBytes payload.length) = stored at hplain
  have hframe := (stored.write (data + 2) sealed).read_write_front data (lenBytes sealed.length) sealed
    (stored.read_write_self _ sealed)
  rw [show (lenBytes sealed.length ++ sealed).length = sealed.length + 2 by simp [lenBytes]] at hframe
  have hmem : w.ngx_alloc.2.mem = w.mem := rfl
  have hcall : w.write_frame N data payload.length =
      (some ⟨data, data, data + 2 + sealed.length, data + 2 + payload.length + 16 + 2⟩,
        { w.ngx_alloc.2 with
          noise, mem := (stored.write (data + 2) sealed).write data (lenBytes sealed.length)
          nc := { w.nc with to_send := sealed.length + 2 } }) := by
    simp only [write_frame, halloc, not_true, if_false, hmem, hstored, hplain, hseal, ne_eq]
    rfl
  exact ⟨_, _, hcall, rfl, by dsimp only; omega, hframe, rfl, rfl, rfl, rfl⟩

/-- A call with a payload at offset 4 of `data`: the frame goes out behind its length. -/
theorem write_spec (hw : w.Sender) (hdata : data ≠ 0)
    (hmax : payload.length ≤ NOISE_PROTOCOL_PAYLOAD_SIZE)
    (hpayload : w.mem.read (data + 4) payload.length = payload)
    (hseal : N.cipherstate_encrypt (lenBytes payload.length ++ payload) w.noise =
      ((NOISE_ERROR_NONE, sealed), noise))
    (hfuel : sealed.length + 2 ≤ fuel) :
    ∃ v : Endpoint S, w.write N fuel data (payload.length + 4) =
        ok (((payload.length + 4 : Nat) : Int), v) ∧
      v.Sender ∧ v.noise = noise ∧ v.env.tx = w.env.tx ++ (lenBytes sealed.length ++ sealed) := by
  have halloc : w.ngx_alloc = (true, w) := by
    obtain ⟨c, nc, noise, prologue, mem, ⟨rx, sends, events, allocs, tx⟩, trace⟩ := w
    obtain rfl : allocs = [] := hw.allocs
    rfl
  obtain ⟨b, u, hsealed, hpos, hlast, hframe, hnoise, hnc, hc, henv⟩ :=
    write_frame_spec (congrArg Prod.fst halloc) hpayload hseal
  rw [halloc] at henv
  have hroom : ¬ w.nc.buffer_size < payload.length := by
    rw [hw.buffer_size]
    omega
  have hsize : payload.length + 4 - 2 * NGX_NSOC_LEN_FIELD_SIZE = payload.length :=
    Nat.add_sub_cancel _ _
  have hcall : w.write N fuel data (payload.length + 4) =
      loop (write_body (payload.length + 4)) fuel (b, u) := by
    unfold write
    rw [if_neg (by simp [hdata]), if_neg (not_not.mpr hw.connection), hsize, if_neg hroom,
      if_pos hw.to_send, hsealed]
  have hlen : b.last - b.pos = sealed.length + 2 := by omega
  obtain ⟨sends, haccepts, hloop⟩ := write_loop_spec (payload.length + 4)
    (show Accepts u.env.sends by rw [henv]; exact hw.sends) (show b.pos < b.last by omega) (hlen ▸ hfuel)
  refine ⟨_, hcall.trans hloop, ⟨?_, ?_, rfl, ?_, haccepts⟩, hnoise, ?_⟩
  · show u.nc.connection = u.c.id
    rw [hnc, hc]
    exact hw.connection
  · show u.nc.buffer_size = _
    rw [hnc]
    exact hw.buffer_size
  · show u.env.allocs = _
    rw [henv]
    exact hw.allocs
  · show u.env.tx ++ u.mem.read b.pos (b.last - b.pos) = _
    rw [hlen, hpos, hframe, henv]

end

end Endpoint

end ngx_nsoc
