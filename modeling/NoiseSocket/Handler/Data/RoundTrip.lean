import NoiseSocket.Handler.Data.Write
import NoiseSocket.NoiseC.Pattern

open Exec Exec.Result

namespace ngx_nsoc

variable {S : Type}

/-- noise-c as a correct AEAD pair: as long as sender and receiver are in `Sync`, a
plaintext whose ciphertext fits in a noise message is sealed with 16 bytes more, the
receiver gets it back, and the two stay in `Sync`. -/
structure Aead (N : NoiseC S) (Sync : S → S → Prop) : Prop where
  opens : ∀ sender receiver plain, Sync sender receiver → plain.length + 16 < 65536 →
    ∃ sealed sender' receiver',
      N.cipherstate_encrypt plain sender = ((NOISE_ERROR_NONE, sealed), sender') ∧
      sealed.length = plain.length + 16 ∧
      N.cipherstate_decrypt sealed receiver = ((NOISE_ERROR_NONE, plain), receiver') ∧
      Sync sender' receiver'

namespace Endpoint

/-- The caller stores a payload behind the two length fields of the buffer at `data`. -/
def store (w : Endpoint S) (data : Nat) (payload : List UInt8) : Endpoint S :=
  { w with mem := w.mem.write (data + 2 * NGX_NSOC_LEN_FIELD_SIZE) payload }

/-- One call of `ngx_nsoc_write` for each buffer and payload, with what it returned. -/
def write_calls (N : NoiseC S) (fuel : Nat) : List (Nat × List UInt8) → Endpoint S →
    Result (List Int × Endpoint S)
  | [], w => ok ([], w)
  | (data, payload) :: writes, w => do
    let r ← (w.store data payload).write N fuel data (payload.length + 2 * NGX_NSOC_LEN_FIELD_SIZE)
    let rest ← write_calls N fuel writes r.2
    ok (r.1 :: rest.1, rest.2)

/-- The calls of the sender put the frames on the wire, and noise-c on the other side
opens them. -/
theorem write_calls_spec {N : NoiseC S} {Sync : S → S → Prop} (hN : Aead N Sync) {fuel : Nat}
    (hfuel : 65538 ≤ fuel) {writes : List (Nat × List UInt8)}
    (hwrites : ∀ x ∈ writes, x.1 ≠ 0 ∧ x.2.length ≤ NOISE_PROTOCOL_PAYLOAD_SIZE) {w : Endpoint S}
    (hw : w.Sender) {noise : S} (hsync : Sync w.noise noise) :
    ∃ frames v, write_calls N fuel writes w =
        ok (writes.map (fun x => ((x.2.length + 4 : Nat) : Int)), v) ∧
      v.env.tx = w.env.tx ++ wire frames ∧ Opens N noise frames (writes.map Prod.snd) := by
  induction writes generalizing w noise with
  | nil => exact ⟨[], w, rfl, by simp [wire], .nil noise⟩
  | cons head writes ih =>
    obtain ⟨data, payload⟩ := head
    obtain ⟨hdata, hmax⟩ : data ≠ 0 ∧ payload.length ≤ 65517 := hwrites _ List.mem_cons_self
    have hplain : (lenBytes payload.length ++ payload).length = payload.length + 2 := by
      simp [lenBytes]
    obtain ⟨sealed, sender, receiver, hseal, hlen, hopen, hsync'⟩ :=
      hN.opens w.noise noise (lenBytes payload.length ++ payload) hsync (by omega)
    have hstored : (w.store data payload).Sender :=
      ⟨hw.connection, hw.buffer_size, hw.to_send, hw.allocs, hw.sends⟩
    obtain ⟨v, hcall, hv, rfl, htx⟩ := write_spec hstored hdata hmax
      (w.mem.read_write_self (data + 4) payload) hseal (show sealed.length + 2 ≤ fuel by omega)
    have hcall' : (w.store data payload).write N fuel data
        (payload.length + 2 * NGX_NSOC_LEN_FIELD_SIZE) = ok (((payload.length + 4 : Nat) : Int), v) := hcall
    obtain ⟨frames, u, hrun, htx', hopens⟩ :=
      ih (fun x hx => hwrites x (List.mem_cons_of_mem _ hx)) hv hsync'
    have hframe : sealed.length = payload.length + 18 := by omega
    refine ⟨sealed :: frames, u, ?_, ?_, .cons hframe hmax hopen hopens⟩
    · simp only [write_calls, hcall', hrun, bind_ok, List.map_cons]
    · rw [htx', htx]
      simp [wire, store]

/-- The framing of the data round-trips. -/
theorem recv_calls_of_write_calls {N : NoiseC S} {Sync : S → S → Prop} (hN : Aead N Sync)
    {fuel : Nat} (hfuel : 65538 ≤ fuel) {writes : List (Nat × List UInt8)}
    (hwrites : ∀ x ∈ writes, x.1 ≠ 0 ∧ x.2.length ≤ NOISE_PROTOCOL_PAYLOAD_SIZE) {w u : Endpoint S}
    (hw : w.Sender) (hsync : Sync w.noise u.noise) (hu : u.Receiving) (hsize : u.nc.noise_msg = .unset) :
    ∃ frames v, write_calls N fuel writes w =
        ok (writes.map (fun x => ((x.2.length + 4 : Nat) : Int)), v) ∧
      v.env.tx = w.env.tx ++ wire frames ∧
      (∀ sealed ∈ frames, lenField sealed.length = sealed.length) ∧
      (∀ x ∈ writes, lenField x.2.length = x.2.length) ∧
      (u.env.rx.bytes = wire frames → ∀ buf size calls, buf ≠ 0 →
        (∀ x ∈ writes, x.2.length ≤ size) →
        ∃ r, recv_calls N fuel buf size calls u = ok r ∧
          r.1 <+: deliveries (writes.map Prod.snd) ∧
          (u.env.rx.pauses + writes.length ≤ calls → r.1 = deliveries (writes.map Prod.snd))) := by
  obtain ⟨frames, v, hrun, hv, hopens⟩ := write_calls_spec hN hfuel hwrites hw hsync
  refine ⟨frames, v, hrun, hv, hopens.lenField, ?_, ?_⟩
  · intro x hx
    have hmax : x.2.length ≤ 65517 := (hwrites x hx).2
    exact be16_lenBytes (by omega)
  · intro hbytes buf size calls hbuf hall
    have hreceiver : Receiver buf u (wire frames) := by
      refine ⟨hu, .between ?_ ?_⟩
      · simp [hsize, SizeField.incomplete]
      · rw [hsize, hbytes]
        rfl
    have hpayloads : ∀ payload ∈ writes.map Prod.snd, payload.length ≤ size := by
      intro payload hpayload
      obtain ⟨x, hx, rfl⟩ := List.mem_map.mp hpayload
      exact hall x hx
    have hcalls := recv_calls_spec (show 65536 ≤ fuel by omega) hbuf hopens hpayloads hreceiver calls
    rwa [List.length_map] at hcalls

theorem aead_pattern_xx : Aead pattern_xx (fun _ _ => True) := by
  constructor
  intro sender receiver plain _ _
  refine ⟨plain ++ Pattern.tag, sender, receiver, rfl, by simp [Pattern.tag], ?_, trivial⟩
  simp [pattern_xx, Pattern.tag]

/-- Two payloads, of three bytes and of none, whose frames come in cut in the middle of
the first length, in the middle of both frames, and in the middle of the second length. -/
theorem recv_calls_of_two_payloads :
    ∃ r, recv_calls pattern_xx 65538 100 16 6 (pattern_server
        [.data 0 [], .again, .data 21 [0, 3, 1], .again, .data 2 ([3] ++ Pattern.tag ++ [0]), .again,
          .data 18 [0, 0], .data 0 (Pattern.tag.drop 1)] false) = ok r ∧
      r.1 = [(3, [1, 2, 3]), (0, [])] := by
  let reader := pattern_server
    [.data 0 [], .again, .data 21 [0, 3, 1], .again, .data 2 ([3] ++ Pattern.tag ++ [0]), .again,
      .data 18 [0, 0], .data 0 (Pattern.tag.drop 1)] false
  have hwriter : (pattern_server [] false).Sender :=
    ⟨rfl, rfl, rfl, rfl, by simp [Accepts, pattern_server, create, Env.quiet]⟩
  have hreader : reader.Receiving := ⟨rfl, by decide, rfl, rfl, by decide⟩
  obtain ⟨frames, v, hrun, htx, -, -, hcalls⟩ := recv_calls_of_write_calls aead_pattern_xx
    (Nat.le_refl 65538) (show ∀ x ∈ [(7, [1, 2, 3]), (7, [])], x.1 ≠ 0 ∧ x.2.length ≤ 65517 by decide)
    hwriter trivial hreader rfl
  have hstream : (write_calls pattern_xx 65538 [(7, [1, 2, 3]), (7, [])] (pattern_server [] false)).map
      (fun r => r.2.env.tx) = ok reader.env.rx.bytes := rfl
  rw [hrun, map_ok, htx] at hstream
  obtain ⟨r, hcall, -, hall⟩ := hcalls (Result.ok.inj hstream).symm 100 16 6 (by decide)
    (by decide)
  exact ⟨r, hcall, hall (by decide)⟩

end Endpoint

end ngx_nsoc
