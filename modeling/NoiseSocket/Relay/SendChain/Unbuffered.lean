import NoiseSocket.Relay.SendChain.Framed

open Exec Exec.Result

namespace ngx_nsoc

variable {S : Type}

namespace NoiseDst

/-- A connection with no frame under way and nothing in `nc->buf`. -/
structure Idle (d : NoiseDst S) : Prop where
  to_send : d.w.nc.to_send = 0
  send_buf : d.w.nc.send_buf = none
  buf : ∀ buf, d.buf = some buf → buf.pos = buf.start ∧ buf.last = buf.start ∧
    buf.stop = buf.start + d.w.nc.buffer_size + NOISE_PROTOCOL_MAC_DATA_SIZE + 2 * NGX_NSOC_LEN_FIELD_SIZE

/-- At most one link of the chain has bytes, and these lie right behind the room for the two length
fields. -/
structure Lone (links : Links) (chain : List Nat) : Prop where
  one : chain.countP (fun i => !(links.buf i).ngx_buf_special) ≤ 1
  front : ∀ i ∈ chain, (links.buf i).ngx_buf_special = false →
    (links.buf i).pos = (links.buf i).start + 2 * NGX_NSOC_LEN_FIELD_SIZE

/-- The payload of the link whose frame is under way, where the link is still in the chain. -/
def under_way (links : Links) (heap : Heap) (rest : List Nat) (d : NoiseDst S) : List UInt8 :=
  if d.w.nc.to_send = 0 then [] else links.contents heap (rest.take 1)

/-- What a call of `ngx_nsoc_send_chain` has passed for framing: the bytes of the links that it took
from the chain and of the one it has begun with, or some of them where it has failed. -/
inductive Passed (links : Links) (heap : Heap) (chain : List Nat) (d d' : NoiseDst S) :
    Option (List Nat) → Prop where
  | returned {front rest : List Nat} (hchain : chain = front ++ rest)
      (hcalls : framed d'.calls =
        framed d.calls ++ links.contents heap front ++ under_way links heap rest d')
      (hsize : d'.w.nc.buffer_size = d.w.nc.buffer_size)
      (hidle : d'.w.nc.to_send = 0 → d'.Idle) : Passed links heap chain d d' (some rest)
  | failed {part : List UInt8} (hpart : part <+: links.contents heap chain)
      (hcalls : framed d'.calls = framed d.calls ++ part) : Passed links heap chain d d' none

section

variable {N : NoiseC S} {fuel passes : Nat} {links : Links} {heap : Heap} {d : NoiseDst S}
  {front back : List Nat} {i : Nat} {r : Option (List Nat) × Unbuffered S}

/-- Links without bytes are skipped. -/
theorem unbuffered_skips (hfront : links.Special front)
    (h : loop (unbuffered_body N fuel) passes ⟨front ++ back, links, heap, d⟩ = ok r) :
    ∃ passes, loop (unbuffered_body N fuel) passes ⟨back, links, heap, d⟩ = ok r := by
  induction front generalizing passes with
  | nil => exact ⟨passes, h⟩
  | cons j front ih =>
    cases passes with
    | zero => cases h
    | succ passes =>
      have hbody : unbuffered_body N fuel ⟨j :: front ++ back, links, heap, d⟩ =
          ok (.cont ⟨front ++ back, links, heap, d⟩) := by
        unfold unbuffered_body
        simp only [List.cons_append, hfront j List.mem_cons_self, if_true]
      rw [loop_of_cont hbody] at h
      exact ih (fun k hk => hfront k (List.mem_cons_of_mem _ hk)) h

/-- A chain without bytes is taken as a whole. -/
theorem unbuffered_of_special (hfront : links.Special front)
    (h : loop (unbuffered_body N fuel) passes ⟨front, links, heap, d⟩ = ok r) :
    r = (some [], ⟨[], links, heap, d⟩) := by
  rw [← List.append_nil front] at h
  obtain ⟨passes, hloop⟩ := unbuffered_skips hfront h
  cases passes with
  | zero => cases hloop
  | succ passes =>
    rw [loop_of_done (Nat.succ_pos _) rfl] at hloop
    exact (Result.ok.inj hloop).symm

/-- The payload of a link whose bytes lie right behind the two length fields. -/
theorem read_eq_region {b : ChainBuf} (hbuilt : b.Built) (hspecial : b.ngx_buf_special = false)
    (hfront : b.pos = b.start + 2 * NGX_NSOC_LEN_FIELD_SIZE) :
    (heap.block b).read (b.start + 4) (b.last - b.start - 4) = heap.region b := by
  have htemporary : b.temporary = true := by simpa [hbuilt.special] using hspecial
  rw [Heap.region, ChainBuf.ngx_buf_size, if_pos htemporary, hfront]
  simp only [NGX_NSOC_LEN_FIELD_SIZE, Nat.sub_sub]

/-- The link with bytes is offered as it is, and what comes back decides. -/
theorem unbuffered_of_link (hidle : d.Idle) (hbuilt : (links.buf i).Built)
    (hspecial : (links.buf i).ngx_buf_special = false)
    (hpos : (links.buf i).pos = (links.buf i).start + 2 * NGX_NSOC_LEN_FIELD_SIZE)
    (hback : links.Special back)
    (h : loop (unbuffered_body N fuel) passes ⟨i :: back, links, heap, d⟩ = ok r) :
    (r.1 = some [] ∧ r.2.d.w.nc.to_send = 0 ∨ r.1 = some (i :: back) ∧ r.2.d.w.nc.to_send ≠ 0 ∨ r.1 = none) ∧
      framed r.2.d.calls = framed d.calls ++ heap.region (links.buf i) ∧ r.2.d.buf = d.buf ∧
      r.2.d.w.nc.buffer_size = d.w.nc.buffer_size ∧ r.2.d.w.nc.send_buf = none := by
  cases passes with
  | zero => cases h
  | succ passes =>
    have hsize := hbuilt.size (by simpa [hbuilt.special] using hspecial)
    simp only [NGX_NSOC_LEN_FIELD_SIZE] at hpos
    rw [loop_succ, bind_eq_ok_iff] at h
    obtain ⟨flow, hbody, hrest⟩ := h
    unfold unbuffered_body at hbody
    simp only [hspecial, Bool.false_eq_true, if_false, bind_eq_ok_iff] at hbody
    obtain ⟨sent, hsend, hflow⟩ := hbody
    have hsends := sends_of_send hsend
    rw [read_eq_region hbuilt hspecial hpos] at hsends
    have hleft : sent.2.2.w.nc.buffer_size = d.w.nc.buffer_size := by rw [hsends.nc]
    have hkept := hsends.kept hidle.send_buf
    split_ifs at hflow with herror hagain hwhole
    · cases hflow
      cases hrest
      exact ⟨.inr (.inr rfl), hsends.calls, hsends.buf, hleft, hkept⟩
    · cases hflow
      cases hrest
      exact ⟨.inr (.inl ⟨rfl, hsends.under_way (.inr hagain)⟩), hsends.calls, hsends.buf, hleft, hkept⟩
    · -- everything is out
      have hall : sent.1 = ((links.buf i).last - (links.buf i).start : Nat) := by
        obtain hcode | hzero | hcode | hcode := hsends.code
        · exact hcode
        · rw [hzero] at hwhole
          simp only [Int.toNat_zero] at hwhole
          omega
        · exact absurd hcode hagain
        · exact absurd hcode herror
      cases hflow
      dsimp only at hrest
      rw [unbuffered_of_special ((hback.set hspecial _).set (by rw [Links.buf_set_self]; exact hspecial) _)
        hrest]
      exact ⟨.inl ⟨rfl, hsends.sent hall⟩, hsends.calls, hsends.buf, hleft, hkept⟩
    · -- nothing is out, and the next pass offers the block again
      have hzero : sent.1 = 0 := by
        obtain hcode | hzero | hcode | hcode := hsends.code
        · rw [hcode, Int.toNat_natCast] at hwhole
          omega
        · exact hzero
        · exact absurd hcode hagain
        · exact absurd hcode herror
      cases hflow
      dsimp only at hrest
      cases passes with
      | zero => cases hrest
      | succ passes =>
        have hfault : ∀ mem, sent.2.2.send N fuel mem (links.buf i).start
            ((links.buf i).last - (links.buf i).start) = fault :=
          fun mem => send_again hsend herror (hsends.under_way (.inl hzero)) hkept
        rw [loop_of_fault (Nat.succ_pos _)] at hrest
        · cases hrest
        · have hnot : ∀ pos, ChainBuf.ngx_buf_special { links.buf i with pos } = false := fun _ => hspecial
          unfold unbuffered_body
          simp only [Links.buf_set_self, hnot, Bool.false_eq_true, if_false, hfault]
          rfl

/-- What the links with bytes of such a chain contribute. -/
theorem contents_of_lone (hfront : links.Special front) (hback : links.Special back) :
    links.contents heap (front ++ i :: back) = heap.region (links.buf i) := by
  rw [Links.contents_append, Links.contents_cons, hfront.contents, hback.contents, List.nil_append,
    List.append_nil]

/-- A call without `nc->buffer`. -/
theorem passed_unbuffered {chain : List Nat} (hidle : d.Idle)
    (hbuilt : ∀ i ∈ chain, (links.buf i).Built) (hlone : Lone links chain)
    (h : loop (unbuffered_body N fuel) passes ⟨chain, links, heap, d⟩ = ok r) :
    Passed links heap chain d r.2.d r.1 := by
  obtain hspecial | ⟨front, i, back, rfl, hfront, hi, hback⟩ := Links.special_or_lone hlone.one
  · rw [unbuffered_of_special hspecial h]
    refine .returned (List.append_nil chain).symm ?_ rfl fun _ => hidle
    simp [hspecial.contents, under_way, hidle.to_send]
  · obtain ⟨passes', hloop⟩ := unbuffered_skips hfront h
    have hmem : i ∈ front ++ i :: back := List.mem_append_right _ List.mem_cons_self
    obtain ⟨hresult, hcalls, hbuf, hsize, hsend_buf⟩ :=
      unbuffered_of_link hidle (hbuilt i hmem) hi (hlone.front i hmem hi) hback hloop
    have hrests : r.2.d.w.nc.to_send = 0 → r.2.d.Idle := by
      intro hzero
      refine ⟨hzero, hsend_buf, fun buf hb => ?_⟩
      rw [hsize]
      rw [hbuf] at hb
      exact hidle.buf buf hb
    obtain ⟨hr, hzero⟩ | ⟨hr, hnot⟩ | hr := hresult
    · rw [hr]
      refine .returned (List.append_nil _).symm ?_ hsize hrests
      rw [hcalls, contents_of_lone hfront hback, under_way, if_pos hzero, List.append_nil]
    · rw [hr]
      refine .returned rfl ?_ hsize hrests
      have hone : under_way links heap (i :: back) r.2.d = heap.region (links.buf i) :=
        (if_neg hnot).trans (List.append_nil _)
      rw [hcalls, hfront.contents, hone, List.append_nil]
    · rw [hr]
      refine .failed ?_ hcalls
      simp only [contents_of_lone hfront hback, List.prefix_rfl]

end

end NoiseDst

end ngx_nsoc
