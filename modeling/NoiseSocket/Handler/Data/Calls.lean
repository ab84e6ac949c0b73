import NoiseSocket.Handler.Data.Recv

open Exec Exec.Result

namespace ngx_nsoc

variable {S : Type}

namespace Endpoint

/-- How a call ends with the frame `sealed` before it: it gets to the end of the frame, or
it uses up one of the pauses of the stream. -/
inductive FrameEnd (N : NoiseC S) (buf size : Nat) (sealed rest : List UInt8) (w : Endpoint S) :
    Result (Int × Endpoint S) → Prop where
  | whole {v : Endpoint S} (hv : v.Receiving) (hread : v.mem.read (buf + 2) sealed.length = sealed)
      (hnoise : v.noise = w.noise) (hrest : v.env.rx.bytes = rest)
      (hpauses : v.env.rx.pauses = w.env.rx.pauses) :
      FrameEnd N buf size sealed rest w (ok (v.recv_frame N (buf + 2) sealed.length size))
  | paused {u : Endpoint S} (hnoise : u.noise = w.noise)
      (hu : Receiver buf u (lenBytes sealed.length ++ sealed ++ rest))
      (hpauses : u.env.rx.pauses + 1 = w.env.rx.pauses) :
      FrameEnd N buf size sealed rest w (ok (NGX_AGAIN, u))

section

variable {N : NoiseC S} {fuel buf size : Nat} {sealed payload rest : List UInt8} {noise : S}
  {w : Endpoint S}

theorem recv_of_inside {got : List UInt8} {v : Endpoint S} (hfuel : 65536 ≤ fuel)
    (hframe : RecvFrame w v) (hv : v.Receiving) (hinside : Inside buf sealed.length got v)
    (hbytes : got ++ v.env.rx.bytes = sealed ++ rest)
    (hpauses : v.env.rx.pauses = w.env.rx.pauses) :
    FrameEnd N buf size sealed rest w (loop (recv_body N size) fuel v) := by
  have hfits := hinside.fits
  obtain ⟨u, hloop, hframe', hu, hread, hrest, hp⟩ | ⟨u, got', hloop, hframe', hu, hin, hrest, hp⟩ :=
    recv_loop_spec (show sealed.length - got.length < fuel by omega) hv hinside hbytes
  · rw [hloop]
    exact .whole hu hread (hframe.trans hframe').noise hrest (by rw [hp, hpauses])
  · rw [hloop]
    refine .paused (hframe.trans hframe').noise ⟨hu, .inside _ got' hin ?_⟩ (by rw [hp, hpauses])
    rw [List.append_assoc, List.append_assoc, hrest]

/-- A receiver with a whole frame before it has not seen the end of the stream. -/
theorem Receiver.bytes_ne_nil (h : Receiver buf w (lenBytes sealed.length ++ sealed ++ rest))
    (hfits : sealed.length < 65536) : w.env.rx.bytes ≠ [] := by
  intro hnil
  cases h.framing with
  | between hincomplete hleft =>
    have hlen := congrArg List.length hleft
    cases hnm : w.nc.noise_msg <;> simp [hnil, hnm, SizeField.held, lenBytes] at hlen
  | inside len got hinside hleft =>
    have hshort := hinside.short
    rw [List.append_assoc, List.append_assoc] at hleft
    obtain ⟨hlen, hbytes⟩ := List.append_inj hleft rfl
    have heq := lenBytes_inj hfits hinside.fits hlen
    have hcount := congrArg List.length hbytes
    simp only [hnil, List.length_append, List.length_nil] at hcount
    omega

/-- A call with a whole frame before it. -/
theorem recv_of_frame (hfuel : 65536 ≤ fuel) (hbuf : buf ≠ 0)
    (hw : Receiver buf w (lenBytes sealed.length ++ sealed ++ rest))
    (hpos : 0 < sealed.length) (hfits : sealed.length < 65536) :
    FrameEnd N buf size sealed rest w (w.recv N fuel buf size) := by
  cases hw.framing with
  | between hincomplete hleft =>
    obtain ⟨b0, b1, v, hcall, hframe, hv, hknown, hrecv, hbytes, hp⟩ | ⟨v, hcall, hframe, hv, hp⟩ :=
      recv_between (N := N) (show 2 ≤ fuel by omega) hbuf hw.toReceiving hincomplete hleft size
    · rw [hcall]
      obtain ⟨rfl, rfl, hrest⟩ : UInt8.ofNat (sealed.length / 256) = b0 ∧
          UInt8.ofNat sealed.length = b1 ∧ sealed ++ rest = v.env.rx.bytes := by
        simpa [lenBytes] using hbytes
      rw [be16_lenBytes hfits] at hknown hrecv
      have hinside : Inside buf sealed.length [] v := ⟨hknown, hrecv, rfl, hpos, hfits⟩
      exact recv_of_inside hfuel hframe hv hinside hrest.symm hp
    · rw [hcall]
      refine .paused hframe.noise hv ?_
      obtain hp | hnil := hp
      · exact hp
      · exact absurd hnil (hv.bytes_ne_nil hfits)
  | inside len got hinside hleft =>
    have hfits' := hinside.fits
    obtain ⟨hlen, hbytes⟩ : lenBytes sealed.length = lenBytes len ∧
        sealed ++ rest = got ++ w.env.rx.bytes := by
      rw [List.append_assoc, List.append_assoc] at hleft
      exact List.append_inj hleft rfl
    obtain rfl := lenBytes_inj hfits hfits' hlen
    have hcall : w.recv N fuel buf size = loop (recv_body N size) fuel w := by
      unfold recv
      rw [if_neg (not_not.mpr hw.connection), if_neg hw.last, hinside.size]
    rw [hcall]
    exact recv_of_inside hfuel ⟨rfl, rfl, rfl, rfl⟩ hw.toReceiving hinside hbytes.symm rfl

/-- A call behind the last frame. -/
theorem recv_of_end (hfuel : 2 ≤ fuel) (hbuf : buf ≠ 0) (hw : Receiver buf w []) (size : Nat) :
    ∃ u, w.recv N fuel buf size = ok (NGX_AGAIN, u) ∧ Receiver buf u [] := by
  cases hw.framing with
  | between hincomplete hleft =>
    obtain ⟨b0, b1, v, -, -, -, -, -, hbytes, -⟩ | ⟨v, hcall, -, hv, -⟩ :=
      recv_between (N := N) hfuel hbuf hw.toReceiving hincomplete hleft size
    · cases hbytes
    · exact ⟨v, hcall, hv⟩
  | inside len got hinside hleft => simp [lenBytes] at hleft

end

/-- `calls` calls of `ngx_nsoc_recv` with the same buffer. For every call that does not
pause: the return value, and as many bytes from offset 4 of the buffer. -/
def recv_calls (N : NoiseC S) (fuel buf size : Nat) : Nat → Endpoint S →
    Result (List (Int × List UInt8) × Endpoint S)
  | 0, w => ok ([], w)
  | calls + 1, w => do
    let r ← w.recv N fuel buf size
    let rest ← recv_calls N fuel buf size calls r.2
    if r.1 = NGX_AGAIN then ok rest
    else ok ((r.1, r.2.mem.read (buf + 2 * NGX_NSOC_LEN_FIELD_SIZE) r.1.toNat) :: rest.1, rest.2)

/-- Frames on the wire, each behind its length. -/
def wire (frames : List (List UInt8)) : List UInt8 :=
  frames.flatMap fun sealed => lenBytes sealed.length ++ sealed

/-- noise-c, from `noise` on, opens the frames one after the other and finds in each
the length of a payload and the payload. -/
inductive Opens (N : NoiseC S) : S → List (List UInt8) → List (List UInt8) → Prop where
  | nil (noise : S) : Opens N noise [] []
  | cons {noise noise' : S} {sealed payload : List UInt8} {frames payloads : List (List UInt8)}
      (hlen : sealed.length = payload.length + 18) (hmax : payload.length ≤ 65517)
      (hopen : N.cipherstate_decrypt sealed noise =
        ((NOISE_ERROR_NONE, lenBytes payload.length ++ payload), noise'))
      (hrest : Opens N noise' frames payloads) :
      Opens N noise (sealed :: frames) (payload :: payloads)

/-- The value a reader finds in the two bytes of a length field. -/
def lenField (n : Nat) : Nat := be16 (UInt8.ofNat (n / 256)) (UInt8.ofNat n)

/-- No length in front of a frame is cut to 16 bits. -/
theorem Opens.lenField {N : NoiseC S} {noise : S} {frames payloads : List (List UInt8)}
    (h : Opens N noise frames payloads) :
    ∀ sealed ∈ frames, lenField sealed.length = sealed.length := by
  induction h with
  | nil noise => simp
  | cons hlen hmax hopen hrest ih =>
    intro sealed hmem
    obtain rfl | hmem := List.mem_cons.mp hmem
    · exact be16_lenBytes (by omega)
    · exact ih sealed hmem

/-- What the calls are to deliver. -/
def deliveries (payloads : List (List UInt8)) : List (Int × List UInt8) :=
  payloads.map fun payload => ((payload.length : Int), payload)

/-- However the stream is cut, the calls deliver the payloads in order, and all of them
once there is a call for each payload and for each pause. -/
theorem recv_calls_spec {N : NoiseC S} {fuel buf size : Nat} (hfuel : 65536 ≤ fuel) (hbuf : buf ≠ 0)
    {frames payloads : List (List UInt8)} {w : Endpoint S} (hopens : Opens N w.noise frames payloads)
    (hsize : ∀ payload ∈ payloads, payload.length ≤ size) (hw : Receiver buf w (wire frames))
    (calls : Nat) :
    ∃ r, recv_calls N fuel buf size calls w = ok r ∧ r.1 <+: deliveries payloads ∧
      (w.env.rx.pauses + payloads.length ≤ calls → r.1 = deliveries payloads) := by
  induction calls generalizing w frames payloads with
  | zero =>
    refine ⟨([], w), rfl, List.nil_prefix, ?_⟩
    intro hcalls
    obtain rfl : payloads = [] := List.eq_nil_of_length_eq_zero (by omega)
    rfl
  | succ calls ih =>
    cases hopens with
    | nil =>
      obtain ⟨u, hcall, hu⟩ := recv_of_end (N := N) (show 2 ≤ fuel by omega) hbuf hw size
      obtain ⟨r, hrun, hfront, -⟩ := ih (.nil u.noise) (by simp) hu
      refine ⟨r, ?_, hfront, fun _ => List.prefix_nil.mp hfront⟩
      simp [recv_calls, hcall, hrun]
    | @cons noise noise' sealed payload frames payloads hlen hmax hopen hrest =>
      have hwire : wire (sealed :: frames) = lenBytes sealed.length ++ sealed ++ wire frames := rfl
      rw [hwire] at hw
      have hcall : FrameEnd N buf size sealed (wire frames) w (w.recv N fuel buf size) :=
        recv_of_frame hfuel hbuf hw (by omega) (by omega)
      generalize hresult : w.recv N fuel buf size = result at hcall
      cases hcall with
      | @whole v hv hread hnoise hleft hpauses =>
        rw [← hnoise] at hopen
        obtain ⟨u, hdone, hmem, rfl, hrx, hu⟩ :=
          recv_frame_spec hv hread hopen (hsize payload List.mem_cons_self) (by omega)
        rw [hleft] at hu
        rw [hdone] at hresult
        have hsame : u.env.rx.pauses = w.env.rx.pauses := by rw [hrx, hpauses]
        obtain ⟨r, hrun, hfront, hall⟩ := ih hrest
          (fun p hp => hsize p (List.mem_cons_of_mem _ hp)) hu
        have hne : (payload.length : Int) ≠ NGX_AGAIN := by
          simp only [NGX_AGAIN]
          omega
        refine ⟨(((payload.length : Int), payload) :: r.1, r.2), ?_, ?_, ?_⟩
        · simp only [recv_calls, hresult, hrun, bind_ok, if_neg hne, Int.toNat_natCast]
          rw [show buf + 2 * NGX_NSOC_LEN_FIELD_SIZE = buf + 4 from rfl, hmem]
        · exact List.cons_prefix_cons.mpr ⟨rfl, hfront⟩
        · intro hcalls
          rw [List.length_cons] at hcalls
          rw [hall (by omega)]
          rfl
      | @paused u hnoise hu hpauses =>
        have hopens' : Opens N u.noise (sealed :: frames) (payload :: payloads) :=
          .cons hlen hmax (by rw [hnoise]; exact hopen) hrest
        obtain ⟨r, hrun, hfront, hall⟩ := ih hopens' hsize hu
        refine ⟨r, ?_, hfront, fun hcalls => hall (by omega)⟩
        simp [recv_calls, hresult, hrun]

end Endpoint

end ngx_nsoc
