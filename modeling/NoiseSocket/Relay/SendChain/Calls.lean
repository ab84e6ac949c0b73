import NoiseSocket.Handler.Handshake
import NoiseSocket.Relay.SendChain.Buffered

open Exec Exec.Result

namespace ngx_nsoc

variable {S : Type}

namespace NoiseDst

/-- Calls of `ngx_nsoc_send_chain`, each with a chain as the relay builds it, in front of which no frame
is under way and which has bytes in one link at most, with these right behind the room for the two
length fields. The bytes are those of the links that were taken from the chains, and those of the link
that the last call has only begun with. -/
inductive Calls (N : NoiseC S) (fuel : Nat) (limit : Int) (start : NoiseDst S) :
    List UInt8 → List UInt8 → NoiseDst S → Prop where
  | refl : Calls N fuel limit start [] [] start
  | call {bytes begun : List UInt8} {d : NoiseDst S} {chain rest : List Nat} {links : Links} {heap : Heap}
      {r : Links × Heap × NoiseDst S} (h : Calls N fuel limit start bytes begun d)
      (hbuilt : ∀ i ∈ chain, (links.buf i).Built) (hto_send : d.w.nc.to_send = 0)
      (hlone : Lone links chain)
      (hcall : d.send_chain N fuel limit chain links heap = ok (some rest, r)) :
      Calls N fuel limit start (bytes ++ links.contents heap (chain.take (chain.length - rest.length)))
        (under_way links heap rest r.2.2) r.2.2
  | elsewhere {bytes begun : List UInt8} {d d' : NoiseDst S} (h : Calls N fuel limit start bytes begun d)
      (helsewhere : d.Elsewhere d') : Calls N fuel limit start bytes begun d'

section

variable {N : NoiseC S} {fuel : Nat} {limit : Int}

/-- What the allocation of `nc->buf` leaves. -/
theorem alloc_buf_cases {d d' : NoiseDst S} {buf : Option RawBuf} (hidle : d.Idle)
    (h : d.alloc_buf = (buf, d')) :
    d'.calls = d.calls ∧ d'.w.nc = d.w.nc ∧ (buf ≠ none → d'.Idle ∧ d'.buf = buf) := by
  unfold alloc_buf at h
  cases hbuf : d.buf with
  | some b =>
    rw [hbuf] at h
    cases h
    exact ⟨rfl, rfl, fun _ => ⟨hidle, hbuf⟩⟩
  | none =>
    rw [hbuf] at h
    dsimp only at h
    split_ifs at h
    · cases h
      refine ⟨rfl, rfl, fun _ => ⟨⟨hidle.to_send, hidle.send_buf, ?_⟩, rfl⟩⟩
      rintro b ⟨⟩
      exact ⟨rfl, rfl, rfl⟩
    · cases h
      exact ⟨rfl, rfl, fun hnot => absurd rfl hnot⟩

/-- A call of `ngx_nsoc_send_chain`, in both modes. -/
theorem passed_send_chain {d : NoiseDst S} {chain : List Nat} {links : Links} {heap : Heap}
    {r : Option (List Nat) × Links × Heap × NoiseDst S} (hidle : d.Idle)
    (hbuilt : ∀ i ∈ chain, (links.buf i).Built) (hlone : Lone links chain)
    (hlimit : (d.w.nc.buffer_size + NOISE_PROTOCOL_MAC_DATA_SIZE + 2 * NGX_NSOC_LEN_FIELD_SIZE : Nat) ≤ limit)
    (h : d.send_chain N fuel limit chain links heap = ok r) :
    Passed links heap chain d r.2.2.2 r.1 := by
  unfold send_chain at h
  split_ifs at h
  · cases h
    exact .failed List.nil_prefix (List.append_nil _).symm
  · cases halloc : d.alloc_buf with
    | mk buf d' =>
      obtain ⟨hcalls, hnc, hidle'⟩ := alloc_buf_cases hidle halloc
      rw [halloc] at h
      cases buf with
      | none =>
        cases h
        refine .failed List.nil_prefix ?_
        rw [hcalls, List.append_nil]
      | some buf =>
        obtain ⟨s, hloop, hrest⟩ := bind_eq_ok_iff.mp h
        cases hrest
        obtain ⟨hidle', hbuf⟩ := hidle' (by simp)
        rw [← hnc] at hlimit
        have hpassed := passed_buffered hidle' hbuf hbuilt hlone hlimit hloop
        generalize s.2.d = last at hpassed ⊢
        generalize s.1 = result at hpassed ⊢
        cases hpassed with
        | returned hchain hframed hsize hdone =>
          rw [hcalls] at hframed
          rw [hnc] at hsize
          exact .returned hchain hframed hsize hdone
        | failed hpart hframed =>
          rw [hcalls] at hframed
          exact .failed hpart hframed
  · rw [bind_eq_ok_iff] at h
    obtain ⟨s, hloop, hrest⟩ := h
    cases hrest
    exact passed_unbuffered hidle hbuilt hlone hloop

/-- What the calls keep: the payloads so far, and an empty buffer where no frame is under way. -/
structure Framed (start : NoiseDst S) (bytes begun : List UInt8) (d : NoiseDst S) : Prop where
  calls : framed d.calls = bytes ++ begun
  idle : d.w.nc.to_send = 0 → d.Idle ∧ begun = []
  size : d.w.nc.buffer_size = start.w.nc.buffer_size

theorem Framed.of_fresh {start : NoiseDst S} (h : start.Fresh) : Framed start [] [] start := by
  refine ⟨?_, fun _ => ⟨⟨h.to_send, h.send_buf, ?_⟩, rfl⟩, rfl⟩
  · rw [h.calls]
    rfl
  · intro buf hbuf
    rw [h.buf] at hbuf
    cases hbuf

theorem Framed.call {start d d' : NoiseDst S} {bytes begun : List UInt8} {chain rest : List Nat}
    {links : Links} {heap : Heap} (h : Framed start bytes begun d) (hto_send : d.w.nc.to_send = 0)
    (hpassed : Passed links heap chain d d' (some rest)) :
    Framed start (bytes ++ links.contents heap (chain.take (chain.length - rest.length)))
      (under_way links heap rest d') d' := by
  obtain ⟨-, hbegun⟩ := h.idle hto_send
  cases hpassed with
  | @returned front _ hchain hcalls hsize hidle =>
    have hfront : chain.take (chain.length - rest.length) = front := by
      rw [hchain, List.length_append, Nat.add_sub_cancel, List.take_left' rfl]
    refine ⟨?_, fun hzero => ⟨hidle hzero, ?_⟩, hsize.trans h.size⟩
    · rw [hcalls, h.calls, hbegun, hfront, List.append_nil]
    · rw [under_way, if_pos hzero]

theorem Framed.elsewhere {start d d' : NoiseDst S} {bytes begun : List UInt8}
    (h : Framed start bytes begun d) (helsewhere : d.Elsewhere d') : Framed start bytes begun d' := by
  refine ⟨?_, fun hzero => ?_, helsewhere.buffer_size.trans h.size⟩
  · rw [helsewhere.calls]
    exact h.calls
  · rw [helsewhere.to_send] at hzero
    obtain ⟨hidle, hbegun⟩ := h.idle hzero
    refine ⟨⟨helsewhere.to_send.trans hzero, helsewhere.send_buf.trans hidle.send_buf, ?_⟩, hbegun⟩
    intro buf hbuf
    rw [helsewhere.buf] at hbuf
    rw [helsewhere.buffer_size]
    exact hidle.buf buf hbuf

/-- In a run of such calls, whatever `c->send` answers, the payloads that were framed are the bytes of
the links taken from the chains, each once and in order, followed by those of a link that is still in
the chain while its frame is under way. Nothing is copied behind unsent bytes, and a call that fails
has framed no more than the start of its chain. -/
theorem framed_of_calls {start d : NoiseDst S} {bytes begun : List UInt8} (hstart : start.Fresh)
    (hlimit :
      (start.w.nc.buffer_size + NOISE_PROTOCOL_MAC_DATA_SIZE + 2 * NGX_NSOC_LEN_FIELD_SIZE : Nat) ≤ limit)
    (h : Calls N fuel limit start bytes begun d) :
    framed d.calls = bytes ++ begun ∧
      (d.w.nc.to_send = 0 → begun = [] ∧ ∀ buf, d.buf = some buf → buf.last = buf.pos) ∧
      ∀ chain links heap r, (∀ i ∈ chain, (links.buf i).Built) → d.w.nc.to_send = 0 → Lone links chain →
        d.send_chain N fuel limit chain links heap = ok (none, r) →
        ∃ part, part <+: links.contents heap chain ∧ framed r.2.2.calls = framed d.calls ++ part := by
  have hframed : Framed start bytes begun d := by
    induction h with
    | refl => exact .of_fresh hstart
    | @call bytes begun d chain rest links heap r _ hbuilt hto_send hlone hcall ih =>
      have hidle := (ih.idle hto_send).1
      rw [← ih.size] at hlimit
      exact ih.call hto_send (passed_send_chain hidle hbuilt hlone hlimit hcall)
    | elsewhere _ helsewhere ih => exact ih.elsewhere helsewhere
  refine ⟨hframed.calls, fun hzero => ?_, ?_⟩
  · obtain ⟨hidle, hbegun⟩ := hframed.idle hzero
    refine ⟨hbegun, fun buf hbuf => ?_⟩
    obtain ⟨hpos, hlast, -⟩ := hidle.buf buf hbuf
    rw [hlast, hpos]
  · intro chain links heap r hbuilt hzero hlone hcall
    rw [← hframed.size] at hlimit
    have hpassed := passed_send_chain (hframed.idle hzero).1 hbuilt hlone hlimit hcall
    cases hpassed with
    | @failed part hpart hcalls => exact ⟨part, hpart, hcalls⟩

end

/-- The connection of a server with the pattern XX, behind the handshake. -/
def pattern_dst : NoiseDst Pattern where
  w := .pattern_server [] false
  buf := none
  flush := false
  buffered := false
  calls := []

/-- Two blocks of one byte each, read one behind the other into the same buffer. -/
def two_blocks : Links where
  buf i := { preread := false, start := 100, pos := 104 + i, last := 105 + i, stop := 500
             temporary := true, last_buf := false, flush := true }
  made := 2

def two_blocks_heap : Heap := ⟨⟨fun x => if x = 104 then 7 else 8, []⟩, ⟨fun _ => 0, []⟩⟩

/-- A connection that puts blocks together, on a socket that takes one frame and the start of the next. -/
def buffered_dst : NoiseDst Pattern :=
  { pattern_dst with
    w := { Endpoint.pattern_server [] false with
      nc := { (Endpoint.pattern_server [] false).nc with buffer := true }
      env := { (Env.quiet [] false) with sends := [.count 4096, .count 5, .again] } } }

theorem fresh_buffered_dst : buffered_dst.Fresh := ⟨rfl, rfl, rfl, rfl⟩

/-- A block of its own, at the start of the buffer. -/
def one_block (len : Nat) : Links where
  buf _ := { preread := false, start := 100, pos := 104, last := 104 + len, stop := 500
             temporary := true, last_buf := false, flush := true }
  made := 1

theorem built_one_block (len : Nat) (hlen : 0 < len) : ∀ i ∈ [0], ((one_block len).buf i).Built := by
  intro i _
  refine ⟨rfl, ?_, fun _ => ?_⟩
  · simp only [one_block]
    omega
  · simp only [one_block]
    omega

theorem lone_one_block (len : Nat) : Lone (one_block len) [0] :=
  ⟨List.countP_le_length, fun _ _ _ => rfl⟩

/-- The frame of the second block is under way. -/
theorem framed_of_two_calls : ∃ bytes begun d,
    Calls pattern_xx 100 (chain_limit 4096) buffered_dst bytes begun d ∧ bytes = [7, 7, 8] ∧
      d.w.nc.to_send = 22 ∧ framed d.calls = bytes ++ begun := by
  have hfirst : ∃ r, buffered_dst.send_chain pattern_xx 100 (chain_limit 4096) [0] (one_block 1)
      two_blocks_heap = ok (some [], r) ∧ r.2.2.w.nc.to_send = 0 ∧
      ∃ r', r.2.2.send_chain pattern_xx 100 (chain_limit 4096) [0] (one_block 2) two_blocks_heap =
        ok (some [], r') ∧ r'.2.2.w.nc.to_send = 22 := ⟨_, rfl, rfl, _, rfl, rfl⟩
  obtain ⟨r, hcall, hzero, r', hcall', hto_send⟩ := hfirst
  have hrun := Calls.call (.call .refl (built_one_block 1 (by decide)) rfl (lone_one_block 1) hcall)
    (built_one_block 2 (by decide)) hzero (lone_one_block 2) hcall'
  exact ⟨_, _, _, hrun, rfl, hto_send, (framed_of_calls fresh_buffered_dst (by decide) hrun).1⟩

/-- Both blocks in one chain: the first, which is sealed by now, goes out again in front of the second. -/
theorem not_framed_of_two_blocks : ∃ r,
    pattern_dst.send_chain pattern_xx 100 (chain_limit 4096) [0, 1] two_blocks two_blocks_heap =
      ok (some [], r) ∧
    framed r.2.2.calls = [7] ++ [7, 0] ∧ two_blocks.contents two_blocks_heap [0, 1] = [7] ++ [8] :=
  ⟨_, rfl, rfl, rfl⟩

end NoiseDst

end ngx_nsoc
