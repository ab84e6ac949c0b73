import NoiseSocket.Handler.Data.Outcome
import NoiseSocket.Relay.SendChain

open Exec Exec.Result

namespace ngx_nsoc

variable {S : Type}

/-- The payloads that were passed for framing, in order. -/
def framed (calls : List WriteCall) : List UInt8 := calls.reverse.flatMap WriteCall.payload

@[simp]
theorem framed_nil : framed [] = [] := rfl

@[simp]
theorem framed_cons (call : WriteCall) (calls : List WriteCall) :
    framed (call :: calls) = framed calls ++ call.payload := by
  simp [framed]

/-- A buffer of a chain as `ngx_nsoc_proxy_process` and `ngx_nsoc_proxy_init_upstream` fill it in. -/
structure ChainBuf.Built (b : ChainBuf) : Prop where
  flush : b.flush = true
  start : b.start ≤ b.pos
  size : b.temporary = true → b.pos < b.last

theorem ChainBuf.Built.special {b : ChainBuf} (h : b.Built) : b.ngx_buf_special = !b.temporary := by
  rw [ngx_buf_special, h.flush, Bool.true_or, Bool.true_and]

namespace Links

variable {l : Links} {h : Heap} {chain : List Nat}

/-- Every link of the chain says something, and none has bytes. -/
def Special (l : Links) (chain : List Nat) : Prop := ∀ i ∈ chain, (l.buf i).ngx_buf_special = true

theorem region_of_special {b : ChainBuf} (hspecial : b.ngx_buf_special = true) : h.region b = [] := by
  have hnot : b.temporary = false := by
    unfold ChainBuf.ngx_buf_special at hspecial
    simp only [Bool.and_eq_true, Bool.not_eq_true'] at hspecial
    exact hspecial.2
  simp [Heap.region, ChainBuf.ngx_buf_size, hnot]

theorem Special.contents (hchain : l.Special chain) : l.contents h chain = [] := by
  induction chain with
  | nil => rfl
  | cons i chain ih =>
    rw [contents_cons, region_of_special (hchain i List.mem_cons_self),
      ih fun j hj => hchain j (List.mem_cons_of_mem _ hj)]
    rfl

/-- Writing the position of a link with bytes leaves the special ones. -/
theorem Special.buf_set (hchain : l.Special chain) {i : Nat}
    (hi : (l.buf i).ngx_buf_special = false) (b : ChainBuf) : ∀ j ∈ chain, (l.set i b).buf j = l.buf j := by
  intro j hj
  apply buf_set_of_ne
  rintro rfl
  rw [hchain j hj] at hi
  cases hi

theorem Special.set (hchain : l.Special chain) {i : Nat} (hi : (l.buf i).ngx_buf_special = false)
    (b : ChainBuf) : (l.set i b).Special chain := by
  intro j hj
  rw [hchain.buf_set hi b j hj]
  exact hchain j hj

/-- A chain with at most one link that has bytes. -/
theorem special_or_lone (hone : chain.countP (fun i => !(l.buf i).ngx_buf_special) ≤ 1) :
    l.Special chain ∨ ∃ front i back, chain = front ++ i :: back ∧ l.Special front ∧
      (l.buf i).ngx_buf_special = false ∧ l.Special back := by
  induction chain with
  | nil => exact .inl nofun
  | cons j chain ih =>
    cases hj : (l.buf j).ngx_buf_special with
    | false =>
      rw [List.countP_cons_of_pos (by simp [hj])] at hone
      refine .inr ⟨[], j, chain, rfl, nofun, hj, fun i hi => ?_⟩
      have hnone : chain.countP (fun i => !(l.buf i).ngx_buf_special) = 0 := by omega
      simpa using List.countP_eq_zero.mp hnone i hi
    | true =>
      rw [List.countP_cons_of_neg (by simp [hj])] at hone
      have hcons : ∀ {rest : List Nat}, l.Special rest → l.Special (j :: rest) := by
        intro rest hrest i hi
        obtain rfl | hi := List.mem_cons.mp hi
        · exact hj
        · exact hrest i hi
      obtain hall | ⟨front, i, back, rfl, hfront, hi, hback⟩ := ih hone
      · exact .inl (hcons hall)
      · exact .inr ⟨j :: front, i, back, rfl, hcons hfront, hi, hback⟩

end Links

/-- A call that was not refused, made again in a state in which a frame is under way that no buffer
holds. -/
theorem Endpoint.write_unfinished {N : NoiseC S} {fuel data size : Nat} {w v : Endpoint S}
    {r : Int × Endpoint S} (h : w.write N fuel data size = ok r) (hn : r.1 ≠ NGX_ERROR)
    (hconnection : v.nc.connection = w.nc.connection) (hid : v.c.id = w.c.id)
    (hbuffer_size : v.nc.buffer_size = w.nc.buffer_size) (hto_send : v.nc.to_send ≠ 0)
    (hsend_buf : v.nc.send_buf = none) : v.write N fuel data size = fault := by
  unfold Endpoint.write at h ⊢
  rw [hconnection, hid, hbuffer_size, hsend_buf]
  split_ifs at h ⊢
  · cases h
    exact absurd rfl hn
  · cases h
    exact absurd rfl hn
  · cases h
    exact absurd rfl hn
  all_goals rfl

namespace NoiseDst

/-- What a `c->send` of `payload` leaves: `n` is what it returns for a block of `size` bytes. -/
structure Sends (d d' : NoiseDst S) (payload : List UInt8) (size : Nat) (n : Int) : Prop where
  calls : framed d'.calls = framed d.calls ++ payload
  buf : d'.buf = d.buf
  flush : d'.flush = d.flush
  mem : d'.w.mem = d.w.mem
  nc : d'.w.nc = { d.w.nc with to_send := d'.w.nc.to_send, send_buf := d'.w.nc.send_buf }
  c : d'.w.c = d.w.c
  code : n = size ∨ n = 0 ∨ n = NGX_AGAIN ∨ n = NGX_ERROR
  admitted : n ≠ NGX_ERROR → size - 2 * NGX_NSOC_LEN_FIELD_SIZE ≤ d.w.nc.buffer_size
  sent : n = size → d'.w.nc.to_send = 0
  kept : d.w.nc.send_buf = none → d'.w.nc.send_buf = none
  under_way : n = 0 ∨ n = NGX_AGAIN → d'.w.nc.to_send ≠ 0

section

variable {N : NoiseC S} {fuel : Nat} {d : NoiseDst S} {mem : Memory} {data size : Nat}
  {sent : Int × Memory × NoiseDst S}

theorem sends_of_send (h : d.send N fuel mem data size = ok sent) :
    Sends d sent.2.2 (mem.read (data + 4) (size - 4)) size sent.1 := by
  obtain ⟨r, hwrite, hrest⟩ := bind_eq_ok_iff.mp h
  have hwrote := Endpoint.write_outcome hwrite
  cases hrest
  exact ⟨framed_cons _ _, rfl, rfl, rfl, hwrote.nc, hwrote.c, hwrote.code, hwrote.admitted,
    fun hn => (hwrote.sent hn).1, hwrote.kept, hwrote.under_way⟩

/-- A block that is offered again while its frame is under way: there is no buffer to go on with. -/
theorem send_again {mem' : Memory} (h : d.send N fuel mem data size = ok sent) (hn : sent.1 ≠ NGX_ERROR)
    (hto_send : sent.2.2.w.nc.to_send ≠ 0) (hsend_buf : sent.2.2.w.nc.send_buf = none) :
    sent.2.2.send N fuel mem' data size = fault := by
  have hsends := sends_of_send h
  obtain ⟨r, hwrite, hrest⟩ := bind_eq_ok_iff.mp h
  have hcode : r.1 ≠ NGX_ERROR := by
    cases hrest
    exact hn
  have hfault : ({ sent.2.2.w with mem := mem' } : Endpoint S).write N fuel data size = fault := by
    apply Endpoint.write_unfinished hwrite hcode
    · show sent.2.2.w.nc.connection = d.w.nc.connection
      rw [hsends.nc]
    · show sent.2.2.w.c.id = d.w.c.id
      rw [hsends.c]
    · show sent.2.2.w.nc.buffer_size = d.w.nc.buffer_size
      rw [hsends.nc]
    · exact hto_send
    · exact hsend_buf
  unfold send
  rw [hfault]
  rfl

end

end NoiseDst

end ngx_nsoc
