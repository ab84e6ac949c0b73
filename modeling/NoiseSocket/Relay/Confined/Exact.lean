import NoiseSocket.Relay.Confined.Run

open Exec Exec.Result

namespace ngx_nsoc

variable {S D : Type}

theorem be16_lt (b0 b1 : UInt8) : be16 b0 b1 < 65536 := by
  have hb0 := b0.toNat_lt
  have hb1 := b1.toNat_lt
  unfold be16
  omega

theorem Endpoint.begun_len_lt {w : Endpoint S} {len : Nat} (h : w.begun_len = some len) : len < 65536 := by
  unfold Endpoint.begun_len at h
  split_ifs at h
  obtain ⟨-, b0, b1, -, -, rfl⟩ := Endpoint.incomplete_of_frame_len h
  exact be16_lt b0 b1

namespace Relay

section

variable {sizes : BufferSizes} {conf : RelayConf} {P : Destination D} {N : NoiseC S} {fuel : Nat}
  {in_place : Bool} {kept : D → Prop} {r : Relay S D} {y : Stage × Relay S D}

/-- A half that comes to a read of a noise connection has made the call. -/
theorem recv_call_of_step {w : Endpoint S} (hstep : Step conf P N fuel (.reading, r) y)
    (hreceives : r.Receives conf) (hsrc : r.src = .noise w) :
    ∃ result, ({ w with mem := r.heap.relay } : Endpoint S).recv N fuel r.b.start (r.read_size conf) =
      ok result := by
  have haddr : r.read_addr = r.b.start := by
    rw [read_addr, hsrc]
    rfl
  have hread : ∃ flow, r.process_read conf N fuel = ok flow := by
    cases hstep with
    | read r r' hread => exact ⟨_, hread⟩
    | leave r r' exit hread => exact ⟨_, hread⟩
  obtain ⟨flow, hflow⟩ := hread
  rw [process_read, if_neg (not_not.mpr hreceives.1), if_neg hreceives.2, bind_eq_ok_iff] at hflow
  obtain ⟨got, hrecv, -⟩ := hflow
  rw [hsrc, haddr] at hrecv
  obtain ⟨result, hcall, -⟩ := bind_eq_ok_iff.mp hrecv
  exact ⟨result, hcall⟩

/-- A step that begins to read a frame without room does not refuse it. -/
theorem Guarded.fits_of_spares (h : r.Guarded sizes in_place kept .reading)
    (hstep : Step conf P N fuel (.reading, r) y) (hspares : Spares conf N fuel (.reading, r) y) :
    r.Fits sizes conf in_place .reading := by
  refine ⟨fun _ hreceives w len hsrc hbegun => ?_, nofun⟩
  by_contra hlong
  have hstop := h.stop
  dsimp only [NOISE_PROTOCOL_MAC_DATA_SIZE, NGX_NSOC_LEN_FIELD_SIZE] at hlong
  obtain ⟨result, hcall⟩ := recv_call_of_step hstep hreceives hsrc
  have hlen : w.frame_len = some len := by
    unfold Endpoint.begun_len at hbegun
    split_ifs at hbegun
    exact hbegun
  have haddr : r.read_addr = r.b.start := by
    rw [read_addr, hsrc]
    rfl
  have hrefused : w.Refused result := by
    refine hspares.refuses rfl hreceives w len result hsrc hlen ?_ ?_
    · dsimp only [NGX_NSOC_LEN_FIELD_SIZE]
      omega
    · rw [recv_call, haddr]
      exact hcall
  exact Endpoint.not_refused_of_begun (w := { w with mem := r.heap.relay }) hbegun (by omega) h.start hcall
    hrefused

/-- With the largest size of a block every step meets the condition. -/
theorem fits_of_largest_block (hblock : sizes.block = NOISE_PROTOCOL_PAYLOAD_SIZE) (stage : Stage) :
    r.Fits sizes conf in_place stage := by
  constructor
  · intro _ _ w len _ hbegun
    have hlen := Endpoint.begun_len_lt hbegun
    rw [hblock]
    dsimp only [NOISE_PROTOCOL_PAYLOAD_SIZE, NOISE_PROTOCOL_MAC_DATA_SIZE, NGX_NSOC_LEN_FIELD_SIZE]
    omega
  · intro _ _ _ _ i _ _
    have hpreread := sizes.preread_le
    rw [← hblock] at hpreread
    omega

end

/-- In every run whose steps so far meet the condition: a step that meets it too spares what lies around the
buffer of the relay, and a step that reads meets it wherever it spares that. -/
def ExactlySparing (sizes : BufferSizes) (conf : RelayConf) (P : Destination D) (N : NoiseC S) (fuel : Nat)
    (in_place : Bool) : Prop :=
  ∀ (r : Relay S D) (x y : Stage × Relay S D), r.Initial conf P sizes.block →
    Run conf P N fuel (fun stage r => r.Fits sizes conf in_place stage) (.idle, r) x →
    Step conf P N fuel x y →
    (x.2.Fits sizes conf in_place x.1 → Spares conf N fuel x y ∧
      x.2.b.stop = x.2.b.start + sizes.block + NOISE_PROTOCOL_MAC_DATA_SIZE + 2 * NGX_NSOC_LEN_FIELD_SIZE) ∧
    (x.1 = .reading → Spares conf N fuel x y → x.2.Fits sizes conf in_place x.1)

theorem exactly_sparing_of_confines {sizes : BufferSizes} {conf : RelayConf} {P : Destination D} {N : NoiseC S}
    {fuel : Nat} {in_place : Bool} {kept : D → Prop} (hN : N.Tagged) (hP : Confines P sizes in_place kept) :
    ExactlySparing sizes conf P N fuel in_place := by
  intro r x y hinitial hrun hstep
  have hx := Run.invariant (fun stage t => stage ≠ .ended → t.Guarded sizes in_place kept stage)
    (fun y z hy hcond hnext => (Guarded.step hN hP hy hcond hnext).2)
    (fun _ => Guarded.of_initial hP hinitial) hrun
  constructor
  · intro hfits
    obtain ⟨⟨hstop, hspares⟩, -⟩ := Guarded.step hN hP hx hfits hstep
    exact ⟨hspares, hstop⟩
  · obtain ⟨stage, t⟩ := x
    rintro rfl hspares
    exact (hx (by simp)).fits_of_spares hstep hspares

/-- What a relay stores around its buffer stays in the buffer as long as each frame that it begins to read, and
each block that it seals in place, has room there; and a frame without room that it begins to read is one
that it does not refuse. With the largest `block_buffer_size` there is room for all of them. -/
theorem spares_iff_fits (sizes : BufferSizes) (conf : RelayConf) (update : UpdateChains) (N : NoiseC S)
    (fuel ngx_pagesize : Nat) (hN : N.Tagged) :
    ExactlySparing sizes conf (sizes.destination update N fuel ngx_pagesize conf.from_upstream) N fuel
        conf.from_upstream ∧
      (∀ (D : Type) (P : Destination D), P.ReadOnly → ExactlySparing sizes conf P N fuel false) ∧
      (sizes.block = NOISE_PROTOCOL_PAYLOAD_SIZE → ∀ (D : Type) (r : Relay S D) (in_place : Bool) (stage : Stage),
        r.Fits sizes conf in_place stage) :=
  ⟨exactly_sparing_of_confines hN (NoiseDst.confines_destination hN sizes update ngx_pagesize conf.from_upstream),
    fun _ _ hP => exactly_sparing_of_confines hN (confines_of_read_only sizes hP),
    fun hblock _ _ _ stage => fits_of_largest_block hblock stage⟩

/-- A frame of the largest size that fits is read, into the buffer of the relay. -/
theorem spares_iff_fits_of_short_frame : ∃ x y : Relay Pattern (NoiseDst Pattern),
    x.payload = [] ∧ y.payload = [7, 8] ∧ x.heap.relay.WritesWithin y.heap.relay (Set.Ico 100 122) ∧
      x.Fits equal_sizes to_client_conf true .reading := by
  have hpass : ∃ y,
      (entered_noise 2 (short_frame 2)).process_read to_client_conf pattern_xx 100 = ok (.cont y) ∧
      y.payload = [7, 8] := ⟨_, rfl, rfl⟩
  obtain ⟨y, hread, hpayload⟩ := hpass
  obtain ⟨hsufficient, hnecessary⟩ := (spares_iff_fits equal_sizes to_client_conf .in_order pattern_xx 100 4096
    tagged_pattern_xx).1 _ _ _ (initial_noise_to_client equal_sizes (short_frame 2) rfl) run_short_frame
    (.read (entered_noise 2 (short_frame 2)) y hread)
  have hspares := (hsufficient fits_short_frame).1
  exact ⟨_, y, rfl, hpayload, hspares.stores, hnecessary rfl hspares⟩

end Relay

end ngx_nsoc
