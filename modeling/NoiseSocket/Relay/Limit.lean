import NoiseSocket.Handler.Data.FailStop
import NoiseSocket.Relay.Halves

open Exec Exec.Result

namespace ngx_nsoc

variable {S D : Type}

/-- The same direction with no limit to its rate. -/
def RelayConf.unlimited (conf : RelayConf) : RelayConf := { conf with limit_rate := 0 }

namespace Relay

section

variable {conf : RelayConf} {got : Int × Memory × Source S} {r r' : Relay S D}

/-- The payload of the link, and whether the stream is over behind it. -/
theorem take_received_result (h : r.take_received conf got = .cont r') :
    r'.payload = r.payload ++ got.2.1.read (got.2.2.payload_addr r.b) (taken got.1).toNat ∧
    r'.src.read.eof = (got.2.2.read.eof || decide (got.1 = NGX_ERROR) ||
      conf.dgram && r.responses + 1 == conf.responses) := by
  obtain ⟨-, -, -, rfl⟩ := take_received_cont h
  obtain ⟨responses, read, haccount, heof⟩ :=
    account_cases conf (taken got.1).toNat (r.behind_recv got)
  rw [haccount]
  by_cases herror : got.1 = NGX_ERROR
  · simp only [behind_recv, if_pos herror, setSrcRead] at heof ⊢
    constructor
    · simp only [add_link, ngx_allocs, payload_addr, Source.payload_addr_setRead]
    · simp only [add_link, ngx_allocs, Source.read_setRead, heof]
      simp [herror]
  · simp only [behind_recv, if_neg herror] at heof ⊢
    constructor
    · simp only [add_link, ngx_allocs, payload_addr, Source.payload_addr_setRead]
    · simp only [add_link, ngx_allocs, Source.read_setRead, heof]
      simp [herror]

/-- The limit does not keep a read from going on. -/
theorem take_received_of_unlimited {r₀ : Relay S D}
    (h : r.take_received conf.unlimited got = .cont r₀) : ∃ r₁, r.take_received conf got = .cont r₁ ∧
      r₁.payload = r₀.payload ∧ r₁.src.read.eof = r₀.src.read.eof := by
  obtain ⟨hudp, hsize, hgranted, -⟩ := take_received_cont h
  have hcont : ∃ r₁, r.take_received conf got = .cont r₁ := by
    change ¬ (got.1 = NGX_ERROR ∧ conf.dgram ∧ r.u_received conf = 0) at hudp
    have hgranted' : (((r.behind_recv got).account conf (taken got.1).toNat).ngx_allocs 1).1 = true := by
      obtain ⟨responses, read, haccount, -⟩ := account_cases conf (taken got.1).toNat (r.behind_recv got)
      obtain ⟨responses', read', haccount', -⟩ :=
        account_cases conf.unlimited (taken got.1).toNat (r.behind_recv got)
      rw [haccount'] at hgranted
      rw [haccount]
      exact hgranted
    refine ⟨(((r.behind_recv got).account conf (taken got.1).toNat).ngx_allocs 1).2.add_link
      (taken got.1).toNat, ?_⟩
    unfold take_received
    dsimp only
    rw [if_neg hudp, if_neg (by omega), if_neg (not_not.mpr hgranted')]
  obtain ⟨r₁, hcont⟩ := hcont
  obtain ⟨hpayload, heof⟩ := take_received_result h
  obtain ⟨hpayload', heof'⟩ := take_received_result hcont
  exact ⟨r₁, hcont, hpayload'.trans hpayload.symm, heof'.trans heof.symm⟩

end

/-- Behind an error a pass does not just end. -/
theorem take_received_error {conf : RelayConf} {mem : Memory} {src : Source S} {r r' : Relay S D}
    (h : r.take_received conf (NGX_ERROR, mem, src) = .done (none, r')) : False := by
  have hzero : taken NGX_ERROR = 0 := rfl
  unfold take_received at h
  dsimp only at h
  rw [hzero, if_neg (Int.lt_irrefl 0)] at h
  split_ifs at h <;> cases h

/-- The next frame of a noise source, of which a part may have come in into the buffer of the relay, is
one that noise-c opens, and it holds `payload`. -/
structure NextFrame (N : NoiseC S) (r : Relay S D) (w : Endpoint S) (payload : List UInt8) : Prop where
  src : r.src = .noise w
  start : r.b.start ≠ 0
  payload_at : Endpoint.payload_at { w with mem := r.heap.relay } r.b.start = r.b.start + 2 + 2
  frame : ∃ sealed padding noise left rest,
    Endpoint.Listener { w with mem := r.heap.relay } left ∧
    left <+: Endpoint.lenBytes sealed.length ++ sealed ++ rest ∧
    sealed.length = payload.length + padding.length + 18 ∧ sealed.length < 65536 ∧
    N.cipherstate_decrypt sealed w.noise =
      ((NOISE_ERROR_NONE, Endpoint.lenBytes payload.length ++ payload ++ padding), noise)

/-- With a limit a read is put off, or hands over the payload that it would without. -/
def OnlyDelays (conf : RelayConf) (N : NoiseC S) (fuel : Nat) (payload : List UInt8) (r r₀ : Relay S D) :
    Prop :=
  r.process_read conf N fuel = ok (.done (none, r.delay)) ∨
    ∃ r₁, r.process_read conf N fuel = ok (.cont r₁) ∧ r₁.payload = r.payload ++ payload ∧
      r₁.src.read.eof = r₀.src.read.eof

section

variable {conf : RelayConf} {N : NoiseC S} {fuel : Nat} {payload : List UInt8} {w : Endpoint S}
  {r r₀ : Relay S D}

/-- What `recv` does with the next frame: the size matters only at its end. -/
theorem NextFrame.recv (hfuel : 65536 ≤ fuel) (h : r.NextFrame N w payload) :
    (∃ mem src, mem.read (r.b.start + 2 + 2) payload.length = payload ∧
        src.payload_addr r.b = r.b.start + 2 + 2 ∧
        ∀ size, (payload.length ≤ size →
            r.src.recv N fuel r.heap.relay r.b.start size = ok ((payload.length : Int), mem, src)) ∧
          (size < payload.length → ∃ mem src,
            r.src.recv N fuel r.heap.relay r.b.start size = ok (NGX_ERROR, mem, src))) ∨
      ∃ n mem src, n ≤ 0 ∧ ∀ size, r.src.recv N fuel r.heap.relay r.b.start size = ok (n, mem, src) := by
  obtain ⟨sealed, padding, noise, left, rest, hlistener, hleft, hlen, hfits, hopen⟩ := h.frame
  rw [h.src]
  obtain ⟨b, v, hends⟩ | ⟨result, hends⟩ :=
    Endpoint.recv_ends (N := N) hfuel h.start hlistener hleft (by omega) hfits
  · left
    have hstart : b.start = r.b.start + 2 := Nat.add_right_cancel (hends.payload_at.symm.trans h.payload_at)
    rw [← hends.noise] at hopen
    obtain ⟨u, hdone, hmem, -, -⟩ :=
      Endpoint.recv_frame_carries hends.listening hends.read hopen (by omega)
    rw [hstart] at hmem
    refine ⟨u.mem, .noise u, hmem, rfl, fun size => ⟨fun hsize => ?_, fun hsize => ?_⟩⟩
    · simp only [Source.recv, hends.call size, hdone size hsize, bind_ok]
    · have hframe := Endpoint.recv_frame_eq hends.read hopen (by omega) size
      dsimp only at hframe
      rw [if_pos hsize] at hframe
      simp only [Source.recv, hends.call size, hframe, bind_ok]
      exact ⟨_, _, rfl⟩
  · right
    have hall : ∀ n u, result = ok (n, u) → ∀ size,
        (Source.noise w).recv N fuel r.heap.relay r.b.start size = ok (n, u.mem, .noise u) := by
      intro n u hresult size
      simp only [Source.recv, hends.call size, hresult, bind_ok]
    cases hends.broken with
    | paused => exact ⟨_, _, _, by simp, hall _ _ rfl⟩
    | failed => exact ⟨_, _, _, by simp, hall _ _ rfl⟩
    | @ended v n hv hnoise hn =>
      refine ⟨n, _, _, ?_, hall n v rfl⟩
      simp only [NGX_AGAIN] at hn
      omega

/-- Where the unlimited direction hands over a payload, a limit only delays it exactly if no part of the
payload alone is left of the rate. -/
theorem only_delays_iff (hfuel : 65536 ≤ fuel) (hrate : 0 < conf.limit_rate)
    (h : r.NextFrame N w payload) (hfits : payload.length ≤ r.room)
    (hunlimited : r.process_read conf.unlimited N fuel = ok (.cont r₀))
    (hpayload : r₀.payload = r.payload ++ payload) :
    r.OnlyDelays conf N fuel payload r₀ ↔
      ¬ (0 < r.limit conf ∧ r.limit conf < payload.length) := by
  have hreadable : r.readable := by
    by_contra hno
    rw [process_read, if_pos hno] at hunlimited
    cases hunlimited
  have haddr : r.read_addr = r.b.start := by
    rw [read_addr, h.src]
    rfl
  have hread : ∀ c : RelayConf, ¬ (c.limit_rate ≠ 0 ∧ r.limit c ≤ 0) → r.process_read c N fuel =
      r.src.recv N fuel r.heap.relay r.b.start (r.read_size c) >>= fun got =>
        ok (r.take_received c got) := by
    intro c hc
    rw [process_read, if_neg (not_not.mpr hreadable), if_neg hc, haddr]
  have hroom : r.read_size conf.unlimited = r.room := by
    rw [read_size, if_neg]
    exact fun hlimit => hlimit.1 rfl
  rw [hread conf.unlimited fun hlimit => hlimit.1 rfl, hroom] at hunlimited
  by_cases hlimit : 0 < r.limit conf
  · rw [OnlyDelays, hread conf (by omega)]
    obtain ⟨mem, src, hmem, hkind, hrecv⟩ | ⟨n, mem, src, hn, hrecv⟩ := h.recv (N := N) hfuel
    · rw [(hrecv r.room).1 hfits, bind_ok] at hunlimited
      obtain ⟨r₁, hcont, hsame, heof⟩ := take_received_of_unlimited (Result.ok.inj hunlimited)
      by_cases hsmall : r.limit conf < payload.length
      · have hsize : r.read_size conf = (r.limit conf).toNat := by
          rw [read_size, if_pos ⟨by omega, by omega⟩]
        obtain ⟨mem', src', herror⟩ := (hrecv (r.limit conf).toNat).2 (by omega)
        rw [hsize, herror, bind_ok]
        refine iff_of_false ?_ (not_not.mpr ⟨hlimit, hsmall⟩)
        rintro (hdelay | ⟨r₁, hcont, hgot, -⟩)
        · exact take_received_error (Result.ok.inj hdelay)
        · obtain ⟨hnone, -⟩ := take_received_result (Result.ok.inj hcont)
          rw [hgot, List.append_cancel_left_eq] at hnone
          have hempty : payload.length = 0 := by
            rw [hnone, Memory.length_read]
            rfl
          omega
      · have hsize : payload.length ≤ r.read_size conf := by
          rw [read_size]
          split_ifs
          · exact (Int.le_toNat (Int.le_of_lt hlimit)).mpr (Int.not_lt.mp hsmall)
          · exact hfits
        rw [(hrecv _).1 hsize, bind_ok, hcont]
        exact iff_of_true (.inr ⟨r₁, rfl, hsame.trans hpayload, heof⟩) fun hno => hsmall hno.2
    · -- the source has nothing to hand over, whatever the size
      rw [hrecv, bind_ok] at hunlimited
      obtain ⟨r₁, hcont, hsame, heof⟩ := take_received_of_unlimited (Result.ok.inj hunlimited)
      obtain ⟨hnone, -⟩ := take_received_result (Result.ok.inj hunlimited)
      rw [hpayload, List.append_cancel_left_eq] at hnone
      have hempty : payload.length = 0 := by
        rw [hnone, Memory.length_read, taken]
        split_ifs <;> omega
      rw [hrecv, bind_ok, hcont]
      exact iff_of_true (.inr ⟨r₁, rfl, hsame.trans hpayload, heof⟩) fun hno => by omega
  · refine iff_of_true (.inl ?_) fun hno => hlimit hno.1
    rw [process_read, if_neg (not_not.mpr hreadable), if_pos ⟨by omega, by omega⟩]

end

/-- A direction with the rate `limit_rate`. -/
def limited_conf (limit_rate : Nat) : RelayConf :=
  ⟨false, false, limit_rate, 0, false, false, false, none⟩

/-- A noise source with the payload `[1, 2, 3]` before it, in the first second of the session. -/
def limited_relay : Relay Pattern Unit where
  b := ⟨100, 104, 104, 120⟩
  src := .noise { Endpoint.pattern_server [.data 0 ([21, 0, 3, 1, 2, 3] ++ Pattern.tag)] false with
    c := { Connection.fresh 0 with read := { Event.fresh with ready := true } } }
  dst := ()
  connected := false
  dst_read := .fresh
  dst_error := false
  write_buffered := false
  ctx := false
  out := []
  busy := []
  saved := []
  links := ⟨fun _ => ⟨false, 0, 0, 0, 0, false, false, false⟩, 0⟩
  heap := ⟨⟨fun _ => 0, []⟩, ⟨fun _ => 0, []⟩⟩
  received := 0
  other_received := 0
  responses := 0
  elapsed := 0
  do_write := false
  write_timer := false
  events := []
  allocs := []
  entered := 0
  record := fun _ => []
  payload := []

/-- A product that an `off_t` cannot hold leaves two bytes of a rate of more than `2 ^ 62`. -/
example : { limited_relay with elapsed := 2 }.limit (limited_conf 6148914691236517206) = 2 := by decide

theorem nextFrame_limited_relay : ∃ w, limited_relay.NextFrame pattern_xx w [1, 2, 3] :=
  ⟨_, rfl, by decide, rfl, [0, 3, 1, 2, 3] ++ Pattern.tag, [], ⟨.responder, 0⟩,
    [0, 21, 0, 3, 1, 2, 3] ++ Pattern.tag, [], ⟨⟨rfl, by decide, rfl⟩, 0, .between rfl rfl⟩, by decide, rfl,
    by decide, rfl⟩

/-- At three bytes a second the payload is handed over at once. -/
theorem only_delays_of_three : ∃ r₀, limited_relay.OnlyDelays (limited_conf 3) pattern_xx 65536 [1, 2, 3] r₀ := by
  obtain ⟨w, hframe⟩ := nextFrame_limited_relay
  have hunlimited : ∃ r₀, limited_relay.process_read (limited_conf 3).unlimited pattern_xx 65536 =
      ok (.cont r₀) ∧ r₀.payload = limited_relay.payload ++ [1, 2, 3] := ⟨_, rfl, rfl⟩
  obtain ⟨r₀, hcont, hpayload⟩ := hunlimited
  exact ⟨r₀, (only_delays_iff (Nat.le_refl 65536) (by decide) hframe (by decide) hcont hpayload).mpr (by decide)⟩

/-- At two bytes a second the frame is dropped, and the stream of the source is over. -/
theorem not_only_delays_of_two : ∃ r₀,
    limited_relay.process_read (limited_conf 2).unlimited pattern_xx 65536 = ok (.cont r₀) ∧
      r₀.payload = limited_relay.payload ++ [1, 2, 3] ∧
      ¬ limited_relay.OnlyDelays (limited_conf 2) pattern_xx 65536 [1, 2, 3] r₀ := by
  refine ⟨_, rfl, rfl, ?_⟩
  have hcall : ∃ r₁, limited_relay.process_read (limited_conf 2) pattern_xx 65536 = ok (.cont r₁) ∧
      r₁.payload = [] ∧ r₁.src.read.eof = true := ⟨_, rfl, rfl, rfl⟩
  obtain ⟨r₁, hcall, hnone, -⟩ := hcall
  rintro (hdelay | ⟨r₂, hcont, hpayload, -⟩)
  · rw [hcall] at hdelay
    cases hdelay
  · rw [hcall] at hcont
    cases hcont
    rw [hnone] at hpayload
    cases hpayload

end Relay

end ngx_nsoc
