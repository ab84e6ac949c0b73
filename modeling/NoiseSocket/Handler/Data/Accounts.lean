import NoiseSocket.Handler.Data.FailStop

open Exec Exec.Result

namespace ngx_nsoc

variable {S : Type}

namespace Endpoint

/-- The frames that are still to come in, with what they carry. Where the socket has failed none of them
will. -/
inductive Ahead (N : NoiseC S) (frames payloads : List (List UInt8)) (w : Endpoint S) : Prop where
  | failed (hw : w.Failed)
  | listening {left : List UInt8} (hw : Listener w left) (hleft : left <+: wire frames)
      (hcarries : Carries N w.noise frames payloads)

/-- Only some parts of the connection tell which frames are ahead. -/
theorem Ahead.of_eq {N : NoiseC S} {frames payloads : List (List UInt8)} {w v : Endpoint S}
    (h : Ahead N frames payloads w) (hid : v.c.id = w.c.id) (hnc : v.nc = w.nc) (hnoise : v.noise = w.noise)
    (hmem : v.mem = w.mem) (hrx : v.env.rx = w.env.rx) (hallocs : v.env.allocs = w.env.allocs) :
    Ahead N frames payloads v := by
  cases h with
  | failed hw => exact .failed ⟨by rw [hnc, hid]; exact hw.connection, by rw [hnc]; exact hw.last⟩
  | @listening left hw hleft hcarries =>
    obtain ⟨start, hframing⟩ := hw.framing
    have hlistening : v.Listening :=
      ⟨by rw [hnc, hid]; exact hw.connection, by rw [hnc]; exact hw.last, hallocs.trans hw.allocs⟩
    refine .listening ⟨hlistening, start, ?_⟩ hleft (by rwa [hnoise])
    cases hframing with
    | between hsize hbytes => exact .between (by rwa [hnc]) (by rwa [hnc, hrx])
    | inside len got hinside hbytes =>
      refine .inside len got ⟨?_, ?_, ?_, hinside.short, hinside.fits⟩ (by rwa [hrx])
      · rw [hnc]
        exact hinside.size
      · rw [hnc]
        exact hinside.recv_buf
      · rw [hmem]
        exact hinside.mem

theorem Ahead.ngx_alloc {N : NoiseC S} {frames payloads : List (List UInt8)} {w : Endpoint S}
    (h : Ahead N frames payloads w) : Ahead N frames payloads w.ngx_alloc.2 := by
  cases h with
  | failed hw => exact .failed ⟨hw.connection, hw.last⟩
  | listening hw hleft hcarries =>
    refine (Ahead.listening hw hleft hcarries).of_eq rfl rfl rfl rfl rfl ?_
    show (nextAnswer w.env.allocs).2 = w.env.allocs
    rw [hw.allocs]
    rfl

/-- A call with `size` bytes offered at `addr` and nothing outside them: what has arrived of a frame lies in
them, and where that is the rest of the frame, the payload is spelled by what the call leaves from `addr` on.
That is what was there in front of the frame, the length of the payload, and the payload behind it. -/
structure Placed (N : NoiseC S) (addr size : Nat) (w : Endpoint S) : Prop where
  room : w.nc.last ≠ NGX_ERROR → w.footprint addr ⊆ Set.Ico addr (addr + size)
  spelled : ∀ b payload padding noise, w.nc.last ≠ NGX_ERROR → w.body addr = some b → b.Whole →
    payload.length < 65536 → N.cipherstate_decrypt (b.bytes w.mem) w.noise =
      ((NOISE_ERROR_NONE, lenBytes payload.length ++ payload ++ padding), noise) →
    (w.mem.read addr (b.start - addr) ++ lenBytes payload.length ++ payload).take payload.length = payload

/-- A call returns, writes into the space that it is offered only, and as many bytes at `addr` as it says are
what the frames that it has finished carry. -/
def Accounts (N : NoiseC S) (fuel addr size : Nat) (frames payloads : List (List UInt8)) (w : Endpoint S) :
    Prop :=
  ∃ r k, w.recv N fuel addr size = ok r ∧ r.1 ≤ size ∧
    w.mem.WritesWithin r.2.mem (Set.Ico addr (addr + size)) ∧
    r.2.mem.read addr r.1.toNat = (payloads.take k).flatten ∧
    Ahead N (frames.drop k) (payloads.drop k) r.2

section

variable {N : NoiseC S} {fuel addr size : Nat} {frames payloads : List (List UInt8)} {w : Endpoint S}

/-- The front of memory that has been written from `start` on. -/
theorem read_write_behind {m m' : Memory} {addr start : Nat} {front bytes padding : List UInt8}
    (hle : addr ≤ start) (hsame : m'.read addr (start - addr) = m.read addr (start - addr)) :
    (m'.write start (front ++ bytes ++ padding)).read addr bytes.length =
      (m.read addr (start - addr) ++ front ++ bytes).take bytes.length := by
  have hall : (m'.write start (front ++ bytes ++ padding)).read addr
      (start - addr + (front ++ bytes).length) = m.read addr (start - addr) ++ (front ++ bytes) := by
    rw [Memory.read_add, Memory.read_write_of_disjoint _ _ _ _ _ (.inl (by omega)), hsame,
      show addr + (start - addr) = start by omega, Memory.read_write_prefix]
  have hpart : (m'.write start (front ++ bytes ++ padding)).read (addr + 0) bytes.length =
      (((m'.write start (front ++ bytes ++ padding)).read addr
        (start - addr + (front ++ bytes).length)).drop 0).take bytes.length := by
    apply Memory.read_part
    rw [List.length_append]
    omega
  rw [hall, List.drop_zero, Nat.add_zero, ← List.append_assoc] at hpart
  exact hpart

/-- A call that breaks off has the same frames ahead. -/
theorem Broken.ahead {left : List UInt8} {r : Int × Endpoint S} (h : Broken left w (ok r))
    (hleft : left <+: wire frames) (hcarries : Carries N w.noise frames payloads) :
    r.1 ≤ 0 ∧ Ahead N frames payloads r.2 := by
  generalize hresult : ok r = result at h
  cases h with
  | @paused start v hv hnoise hframing =>
    cases hresult
    rw [← hnoise] at hcarries
    exact ⟨by simp, .listening ⟨hv, start, hframing⟩ hleft hcarries⟩
  | failed hv =>
    cases hresult
    exact ⟨by simp, .failed hv⟩
  | @ended v n hv hnoise hn =>
    cases hresult
    rw [← hnoise] at hcarries
    simp only [NGX_AGAIN] at hn
    exact ⟨by dsimp only; omega, .listening hv.listener List.nil_prefix hcarries⟩

theorem Broken.exists_ok {left : List UInt8} {result : Result (Int × Endpoint S)}
    (h : Broken left w result) : ∃ r, result = ok r := by
  cases h with
  | paused | failed | ended => exact ⟨_, rfl⟩

/-- A call that breaks off accounts for what it writes where that lies in the space offered. -/
theorem accounts_iff_of_broken {left : List UInt8} {space : Set Nat}
    (hbroken : Broken left w (w.recv N fuel addr size)) (hleft : left <+: wire frames)
    (hcarries : Carries N w.noise frames payloads)
    (hwrites : ∀ r, w.recv N fuel addr size = ok r → w.mem.Writes r.2.mem space) :
    Accounts N fuel addr size frames payloads w ↔ space ⊆ Set.Ico addr (addr + size) := by
  obtain ⟨r, hr⟩ := hbroken.exists_ok
  rw [hr] at hbroken
  obtain ⟨hn, hahead⟩ := hbroken.ahead hleft hcarries
  rw [← (hwrites r hr).within_iff]
  constructor
  · rintro ⟨r', k, hr', -, hwithin, -⟩
    obtain rfl := Result.ok.inj (hr.symm.trans hr')
    exact hwithin
  · intro hwithin
    refine ⟨r, 0, hr, by omega, hwithin, ?_, hahead⟩
    rw [Int.toNat_of_nonpos hn]
    rfl

/-- A call that gets to the end of a frame. -/
theorem accounts_iff_of_completes {sealed payload padding : List UInt8} {noise : S} {b : Body}
    {v : Endpoint S} (h : Completes N fuel addr sealed (wire frames) w b v)
    (hlen : sealed.length = payload.length + padding.length + 18) (hfits : sealed.length < 65536)
    (hopen : N.cipherstate_decrypt sealed w.noise =
      ((NOISE_ERROR_NONE, lenBytes payload.length ++ payload ++ padding), noise))
    (hcarries : Carries N noise frames payloads) :
    Accounts N fuel addr size (sealed :: frames) (payload :: payloads) w ↔
      w.footprint addr ⊆ Set.Ico addr (addr + size) ∧
        (w.mem.read addr (b.start - addr) ++ lenBytes payload.length ++ payload).take payload.length =
          payload := by
  have hplain : (lenBytes payload.length ++ payload ++ padding).length = b.len - 16 := by
    simp only [List.length_append, h.len, hlen, lenBytes, List.length_cons, List.length_nil]
    omega
  have hopen' := hopen
  rw [← h.noise] at hopen'
  have hframe := recv_frame_eq h.read hopen' (by omega) size
  have hspace : w.mem.Writes (v.mem.write b.start (lenBytes payload.length ++ payload ++ padding))
      (w.footprint addr) := by
    have hall := h.writes.trans (v.mem.writes_write b.start (lenBytes payload.length ++ payload ++ padding))
    rw [hplain, ← h.len] at hall
    have hmin : min (b.got + b.more.length) b.len = b.len := Nat.min_eq_right h.whole
    simpa only [footprint, h.body, Body.footprint, if_pos h.whole, hmin] using hall
  -- the frame lies in the space offered
  have hplaced : w.footprint addr ⊆ Set.Ico addr (addr + size) →
      addr ≤ b.start ∧ b.start + b.len ≤ addr + size := by
    intro hsub
    have hfirst : b.start ∈ w.footprint addr := by
      simp only [footprint, h.body, Body.footprint, if_pos h.whole, NOISE_PROTOCOL_MAC_DATA_SIZE]
      exact .inr ⟨Nat.le_refl _, by have hbig := h.len; omega⟩
    have hlast : b.start + b.len - 1 ∈ w.footprint addr := by
      have hmin : min (b.got + b.more.length) b.len = b.len := Nat.min_eq_right h.whole
      simp only [footprint, h.body, Body.footprint, hmin]
      have hshort := h.short
      exact .inl ⟨by omega, by omega⟩
    have hlow := (hsub hfirst).1
    have hhigh := (hsub hlast).2
    exact ⟨hlow, by omega⟩
  have hread : addr ≤ b.start →
      (v.mem.write b.start (lenBytes payload.length ++ payload ++ padding)).read addr payload.length =
        (w.mem.read addr (b.start - addr) ++ lenBytes payload.length ++ payload).take payload.length := by
    intro hle
    refine read_write_behind hle (h.writes.read ?_)
    intro x hx
    have hge := hx.1
    omega
  have hcall := h.call size
  rw [hframe] at hcall
  dsimp only at hcall
  constructor
  · rintro ⟨r, k, hr, -, hwithin, hgives, -⟩
    have hsub : w.footprint addr ⊆ Set.Ico addr (addr + size) := by
      rw [← hspace.within_iff]
      rw [hr] at hcall
      split_ifs at hcall
      all_goals
        cases hcall
        exact hwithin
    obtain ⟨hlow, hhigh⟩ := hplaced hsub
    have hbig := h.len
    rw [if_neg (by omega), hr] at hcall
    cases hcall
    refine ⟨hsub, ?_⟩
    have hgives' : (v.mem.write b.start (lenBytes payload.length ++ payload ++ padding)).read addr
        payload.length = ((payload :: payloads).take k).flatten := hgives
    rw [← hread hlow, hgives']
    have hcount := congrArg List.length hgives'
    rw [Memory.length_read] at hcount
    cases k with
    | zero => exact (List.eq_nil_of_length_eq_zero hcount).symm
    | succ k =>
      simp only [List.take_succ_cons, List.flatten_cons, List.length_append] at hcount ⊢
      rw [List.eq_nil_of_length_eq_zero (l := (payloads.take k).flatten) (by omega), List.append_nil]
  · rintro ⟨hsub, hspelled⟩
    obtain ⟨hlow, hhigh⟩ := hplaced hsub
    have hbig := h.len
    obtain ⟨u, hdone, -, hnoise, hu⟩ := recv_frame_carries h.listening h.read hopen' (by omega)
    have hdone := hdone size (by omega)
    rw [hframe] at hdone
    dsimp only at hdone
    rw [if_neg (by omega)] at hdone hcall
    refine ⟨_, 1, hcall, by dsimp only; omega, hspace.within_iff.mpr hsub, ?_, ?_⟩
    · have hread := hread hlow
      simp only [Int.toNat_natCast, List.take_succ_cons, List.take_zero, List.flatten_cons, List.flatten_nil,
        List.append_nil]
      exact hread.trans hspelled
    · rw [(Prod.ext_iff.mp hdone).2]
      rw [← hnoise] at hcarries
      exact .listening hu h.rest hcarries

/-- A call writes no further than the body of the frame. -/
theorem footprint_subset {b : Body} (hbody : w.body addr = some b) (hlow : addr ≤ b.start)
    (hhigh : b.start + b.len ≤ addr + size) : w.footprint addr ⊆ Set.Ico addr (addr + size) := by
  rw [footprint, hbody]
  rintro x (hx | hx)
  · have hge := hx.1
    have hlt := hx.2
    exact ⟨by omega, by omega⟩
  · split_ifs at hx
    · have hge := hx.1
      have hlt := hx.2
      exact ⟨by omega, by omega⟩
    · cases hx

theorem placed_iff_of_part (hlast : w.nc.last ≠ NGX_ERROR) (hpart : ∀ b, w.body addr = some b → ¬ b.Whole) :
    Placed N addr size w ↔ w.footprint addr ⊆ Set.Ico addr (addr + size) :=
  ⟨fun h => h.room hlast, fun hsub => ⟨fun _ => hsub, fun b _ _ _ _ hb hwhole => absurd hwhole (hpart b hb)⟩⟩

/-- What a frame carries is told by the frame. -/
theorem placed_iff_of_whole {payload padding : List UInt8} {noise : S} {b : Body}
    (hlast : w.nc.last ≠ NGX_ERROR) (hb : w.body addr = some b) (hwhole : b.Whole)
    (hfits : payload.length < 65536)
    (hopen : N.cipherstate_decrypt (b.bytes w.mem) w.noise =
      ((NOISE_ERROR_NONE, lenBytes payload.length ++ payload ++ padding), noise)) :
    Placed N addr size w ↔ w.footprint addr ⊆ Set.Ico addr (addr + size) ∧
      (w.mem.read addr (b.start - addr) ++ lenBytes payload.length ++ payload).take payload.length =
        payload := by
  refine ⟨fun h => ⟨h.room hlast, h.spelled b payload padding noise hlast hb hwhole hfits hopen⟩, ?_⟩
  rintro ⟨hsub, hspelled⟩
  refine ⟨fun _ => hsub, ?_⟩
  intro b' payload' padding' noise' _ hb' _ hfits' hopen'
  obtain rfl := Option.some.inj (hb.symm.trans hb')
  have hsame := congrArg (fun call => call.1.2) (hopen.symm.trans hopen')
  simp only [List.append_assoc] at hsame
  obtain ⟨hlen, hrest⟩ := List.append_inj hsame rfl
  obtain rfl := (List.append_inj hrest (lenBytes_inj hfits hfits' hlen)).1
  exact hspelled

/-- A call accounts for what it writes exactly where the frame is placed right. -/
theorem recv_accounts_iff (hfuel : 65536 ≤ fuel) (haddr : addr ≠ 0) (h : Ahead N frames payloads w) :
    Accounts N fuel addr size frames payloads w ↔ Placed N addr size w := by
  cases h with
  | failed hw =>
    have hcall : w.recv N fuel addr size = ok (NGX_ERROR, w.setReadError) := by
      unfold recv
      rw [if_neg (not_not.mpr hw.connection), if_pos hw.last]
    refine iff_of_true ⟨_, 0, hcall, by simp, .refl _ _, rfl, .failed ⟨hw.connection, hw.last⟩⟩ ?_
    exact ⟨fun hlast => absurd hw.last hlast, fun _ _ _ _ hlast => absurd hw.last hlast⟩
  | @listening left hw hleft hcarries =>
    cases hcarries with
    | nil =>
      obtain rfl : left = [] := List.prefix_nil.mp hleft
      obtain ⟨hbroken, hbody, hwrites⟩ := recv_ends_nil (N := N) (show 2 ≤ fuel by omega) haddr hw size
      have hnone : w.footprint addr = ∅ := by rw [footprint, hbody]
      rw [placed_iff_of_part hw.last (by simp [hbody]), hnone]
      exact accounts_iff_of_broken hbroken hleft (.nil _) hwrites
    | @cons noise noise' sealed payload padding frames payloads hlen hfits hopen hrest =>
      obtain ⟨b, v, hends⟩ | ⟨result, hends⟩ :=
        recv_ends (N := N) hfuel haddr hw hleft (by omega) hfits
      · have hopen' := hopen
        rw [← hends.bytes] at hopen'
        rw [placed_iff_of_whole hw.last hends.body hends.whole (by omega) hopen']
        exact accounts_iff_of_completes hends hlen hfits hopen hrest
      · rw [placed_iff_of_part hw.last hends.part]
        have hcall := hends.call size
        rw [← hcall] at hends
        exact accounts_iff_of_broken hends.broken hleft (.cons hlen hfits hopen hrest) hends.writes

end

end Endpoint

end ngx_nsoc
