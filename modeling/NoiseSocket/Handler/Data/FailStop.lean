import NoiseSocket.Handler.Data.Ends
import NoiseSocket.NoiseC.Pattern

open Exec Exec.Result

namespace ngx_nsoc

variable {S : Type}

namespace Endpoint

/-- noise-c, from `noise` on, opens the frames one after the other and finds in each the length of a
payload, the payload and padding of any length. -/
inductive Carries (N : NoiseC S) : S → List (List UInt8) → List (List UInt8) → Prop where
  | nil (noise : S) : Carries N noise [] []
  | cons {noise noise' : S} {sealed payload padding : List UInt8} {frames payloads : List (List UInt8)}
      (hlen : sealed.length = payload.length + padding.length + 18) (hfits : sealed.length < 65536)
      (hopen : N.cipherstate_decrypt sealed noise =
        ((NOISE_ERROR_NONE, lenBytes payload.length ++ payload ++ padding), noise'))
      (hrest : Carries N noise' frames payloads) :
      Carries N noise (sealed :: frames) (payload :: payloads)

section

variable {N : NoiseC S} {start : Nat} {sealed payload padding : List UInt8} {noise : S} {v : Endpoint S}

/-- The last step of such a frame: a payload above `size` is an error. -/
theorem recv_frame_eq (hread : v.mem.read start sealed.length = sealed)
    (hopen : N.cipherstate_decrypt sealed v.noise =
      ((NOISE_ERROR_NONE, lenBytes payload.length ++ payload ++ padding), noise))
    (hfits : payload.length < 65536) (size : Nat) :
    v.recv_frame N start sealed.length size =
      let mem := v.mem.write start (lenBytes payload.length ++ payload ++ padding)
      let u : Endpoint S := { v with noise, mem }
      if size < payload.length then (NGX_ERROR, u)
      else ((payload.length : Int), ((u.setReadReady true).end_frame).setLast 0) := by
  have hfirst : (v.mem.write start (lenBytes payload.length ++ payload ++ padding)).byte start =
      UInt8.ofNat (payload.length / 256) := v.mem.byte_write_of_getElem? (i := 0) rfl
  have hsecond : (v.mem.write start (lenBytes payload.length ++ payload ++ padding)).byte (start + 1) =
      UInt8.ofNat payload.length := v.mem.byte_write_of_getElem? (i := 1) rfl
  unfold recv_frame
  rw [hread, hopen]
  dsimp only
  rw [if_neg (by simp), hfirst, hsecond, be16_lenBytes hfits]

theorem recv_frame_carries (hv : v.Listening) (hread : v.mem.read start sealed.length = sealed)
    (hopen : N.cipherstate_decrypt sealed v.noise =
      ((NOISE_ERROR_NONE, lenBytes payload.length ++ payload ++ padding), noise))
    (hfits : payload.length < 65536) :
    ∃ u : Endpoint S, (∀ size, payload.length ≤ size →
        v.recv_frame N start sealed.length size = ((payload.length : Int), u)) ∧
      u.mem.read (start + 2) payload.length = payload ∧ u.noise = noise ∧ Listener u v.env.rx.bytes := by
  refine ⟨((Endpoint.setReadReady { v with
    noise, mem := v.mem.write start (lenBytes payload.length ++ payload ++ padding) } true).end_frame).setLast
      0, ?_, ?_, rfl, ⟨hv.connection, by simp [setLast], hv.allocs⟩, 0, .between rfl rfl⟩
  · intro size hsize
    rw [recv_frame_eq hread hopen hfits size]
    dsimp only
    rw [if_neg (by omega)]
  · have hpart := v.mem.read_write_part start (lenBytes payload.length) (payload ++ padding)
    rw [List.length_append, Memory.read_add, ← List.append_assoc] at hpart
    exact (List.append_inj hpart (by simp)).1

end

/-- Calls of `ngx_nsoc_recv`, each with its own buffer and size. For every call: the return value, and
as many bytes of payload. -/
def recv_run (N : NoiseC S) (fuel : Nat) : List (Nat × Nat) → Endpoint S →
    Result (List (Int × List UInt8) × Endpoint S)
  | [], w => ok ([], w)
  | (buf, size) :: calls, w => do
    let r ← w.recv N fuel buf size
    let rest ← recv_run N fuel calls r.2
    ok ((r.1, r.2.mem.read (w.payload_at buf) r.1.toNat) :: rest.1, rest.2)

/-- The payloads that a run of calls has delivered. -/
def delivered (results : List (Int × List UInt8)) : List (List UInt8) :=
  (results.filter fun result => 0 < result.1).map Prod.snd

/-- Behind a call that has returned `NGX_ERROR` every call does, and what has been delivered is a prefix of
the payloads, apart from empty ones. -/
def FailStop (N : NoiseC S) (fuel : Nat) (calls : List (Nat × Nat)) (payloads : List (List UInt8))
    (w : Endpoint S) : Prop :=
  ∃ r, recv_run N fuel calls w = ok r ∧
    r.1.Pairwise (fun result later => result.1 = NGX_ERROR → later.1 = NGX_ERROR) ∧
    delivered r.1 <+: payloads.filter (· ≠ [])

section

variable {N : NoiseC S} {fuel buf size : Nat} {calls : List (Nat × Nat)} {w : Endpoint S}

theorem recv_run_cons {v : Endpoint S} {n : Int} {r : List (Int × List UInt8) × Endpoint S}
    (hcall : w.recv N fuel buf size = ok (n, v)) (hrun : recv_run N fuel calls v = ok r) :
    recv_run N fuel ((buf, size) :: calls) w =
      ok ((n, v.mem.read (w.payload_at buf) n.toNat) :: r.1, r.2) := by
  simp only [recv_run, hcall, hrun, bind_ok]

/-- Behind a failure of the socket a run delivers nothing, and every call fails. -/
theorem recv_run_failed (hw : w.Failed) (calls : List (Nat × Nat)) :
    ∃ r, recv_run N fuel calls w = ok r ∧ ∀ result ∈ r.1, result.1 = NGX_ERROR := by
  induction calls generalizing w with
  | nil => exact ⟨_, rfl, by simp⟩
  | cons call calls ih =>
    obtain ⟨buf, size⟩ := call
    obtain ⟨v, hcall, hv⟩ : ∃ v, w.recv N fuel buf size = ok (NGX_ERROR, v) ∧ v.Failed :=
      recv_failed hw size
    obtain ⟨r, hrun, herror⟩ := ih hv
    refine ⟨_, recv_run_cons hcall hrun, ?_⟩
    intro result hresult
    obtain rfl | hresult := List.mem_cons.mp hresult
    · rfl
    · exact herror result hresult

theorem delivered_of_error {results : List (Int × List UInt8)}
    (h : ∀ result ∈ results, result.1 = NGX_ERROR) : delivered results = [] := by
  rw [delivered, List.map_eq_nil_iff, List.filter_eq_nil_iff]
  intro result hresult
  simp [h result hresult]

/-- A call that delivers nothing in front of a run. -/
theorem FailStop.cons_of_nonpos {v : Endpoint S} {n : Int} {payloads : List (List UInt8)}
    (hcall : w.recv N fuel buf size = ok (n, v)) (hn : n ≤ 0) (hne : n ≠ NGX_ERROR)
    (h : FailStop N fuel calls payloads v) : FailStop N fuel ((buf, size) :: calls) payloads w := by
  obtain ⟨r, hrun, hsticky, hfront⟩ := h
  refine ⟨_, recv_run_cons hcall hrun, ?_, ?_⟩
  · exact List.pairwise_cons.mpr ⟨fun later _ herror => absurd herror hne, hsticky⟩
  · rw [delivered, List.filter_cons_of_neg (by simpa using hn)]
    exact hfront

/-- A call that fails because of the socket in front of a run. -/
theorem FailStop.cons_of_failed {v : Endpoint S} (hcall : w.recv N fuel buf size = ok (NGX_ERROR, v))
    (hv : v.Failed) (calls : List (Nat × Nat)) (payloads : List (List UInt8)) :
    FailStop N fuel ((buf, size) :: calls) payloads w := by
  obtain ⟨r, hrun, herror⟩ : ∃ r, recv_run N fuel calls v = ok r ∧
      ∀ result ∈ r.1, result.1 = NGX_ERROR := recv_run_failed hv calls
  refine ⟨_, recv_run_cons hcall hrun, ?_, ?_⟩
  · refine List.pairwise_cons.mpr ⟨fun later hlater _ => herror later hlater, ?_⟩
    exact List.pairwise_of_forall_mem_list fun x hx y hy _ => herror y hy
  · rw [delivered, List.filter_cons_of_neg (by simp)]
    change delivered r.1 <+: _
    rw [delivered_of_error herror]
    exact List.nil_prefix

/-- A call that delivers the first payload in front of a run. -/
theorem FailStop.cons_of_payload {v : Endpoint S} {payload : List UInt8} {payloads : List (List UInt8)}
    (hcall : w.recv N fuel buf size = ok ((payload.length : Int), v))
    (hmem : v.mem.read (w.payload_at buf) payload.length = payload) (h : FailStop N fuel calls payloads v) :
    FailStop N fuel ((buf, size) :: calls) (payload :: payloads) w := by
  obtain ⟨r, hrun, hsticky, hfront⟩ := h
  refine ⟨_, recv_run_cons hcall hrun, ?_, ?_⟩
  · refine List.pairwise_cons.mpr ⟨fun later _ herror => ?_, hsticky⟩
    simp only [NGX_ERROR] at herror
    omega
  · rw [Int.toNat_natCast, hmem]
    cases payload with
    | nil => exact hfront
    | cons b bs =>
      rw [delivered, List.filter_cons_of_pos (by simp), List.filter_cons_of_pos (by simp)]
      exact List.cons_prefix_cons.mpr ⟨rfl, hfront⟩

/-- A call that does not get to the end of a frame in front of a run. -/
theorem FailStop.cons_of_broken {left : List UInt8} {payloads : List (List UInt8)}
    (h : Broken left w (w.recv N fuel buf size))
    (hpaused : ∀ start v, w.recv N fuel buf size = ok (NGX_AGAIN, v) → v.Listening → v.noise = w.noise →
      Framing start v left → FailStop N fuel calls payloads v)
    (hended : ∀ v : Endpoint S, v.Ended → FailStop N fuel calls payloads v) :
    FailStop N fuel ((buf, size) :: calls) payloads w := by
  generalize hcall : w.recv N fuel buf size = result at h
  cases h with
  | @paused start v hv hnoise hframing =>
    exact .cons_of_nonpos hcall (by simp) (by simp) (hpaused start v hcall hv hnoise hframing)
  | failed hv => exact .cons_of_failed hcall hv calls payloads
  | @ended v n hv _ hn =>
    refine .cons_of_nonpos hcall ?_ ?_ (hended v hv)
    · simp only [NGX_AGAIN] at hn
      omega
    · simp only [NGX_AGAIN, NGX_ERROR] at hn ⊢
      omega

/-- Where nothing more comes in, nothing is delivered. -/
theorem fail_stop_of_nothing (hfuel : 2 ≤ fuel) (hw : Listener w []) (hcalls : ∀ call ∈ calls, call.1 ≠ 0)
    (payloads : List (List UInt8)) : FailStop N fuel calls payloads w := by
  induction calls generalizing w with
  | nil => exact ⟨_, rfl, .nil, List.nil_prefix⟩
  | cons call calls ih =>
    obtain ⟨buf, size⟩ := call
    have hcalls' := fun call hcall => hcalls call (List.mem_cons_of_mem _ hcall)
    refine .cons_of_broken (recv_ends_nil hfuel (hcalls _ List.mem_cons_self) hw size).1 ?_ ?_
    · intro start v _ hv _ hframing
      exact ih ⟨hv, start, hframing⟩ hcalls'
    · intro v hv
      exact ih hv.listener hcalls'

/-- The calls that do not pause have room for the payload that comes next; `payloads` are those that have
not been delivered. -/
def Roomy (N : NoiseC S) (fuel : Nat) : List (Nat × Nat) → List (List UInt8) → Endpoint S → Prop
  | [], _, _ => True
  | (buf, size) :: calls, payloads, w => ∀ n v, w.recv N fuel buf size = ok (n, v) →
    (n ≠ NGX_AGAIN → ∀ payload ∈ payloads.head?, payload.length ≤ size) ∧
      Roomy N fuel calls (if 0 ≤ n then payloads.tail else payloads) v

theorem Roomy.cons {v : Endpoint S} {n : Int} {payloads : List (List UInt8)}
    (hcall : w.recv N fuel buf size = ok (n, v))
    (hsize : n ≠ NGX_AGAIN → ∀ payload ∈ payloads.head?, payload.length ≤ size)
    (h : Roomy N fuel calls (if 0 ≤ n then payloads.tail else payloads) v) :
    Roomy N fuel ((buf, size) :: calls) payloads w := by
  intro n' v' hcall'
  cases hcall.symm.trans hcall'
  exact ⟨hsize, h⟩

/-- A run of calls is fail-stop where every frame that comes in is one that noise-c opens and that holds
a payload within the size of the call that gets it. The stream is cut anywhere, fails anywhere and ends
anywhere. -/
theorem recv_run_fail_stop (hfuel : 65536 ≤ fuel) {left : List UInt8} {frames payloads : List (List UInt8)}
    (hcarries : Carries N w.noise frames payloads) (hw : Listener w left) (hleft : left <+: wire frames)
    (hcalls : ∀ call ∈ calls, call.1 ≠ 0) (hroomy : Roomy N fuel calls payloads w) :
    FailStop N fuel calls payloads w := by
  induction calls generalizing w left frames payloads with
  | nil => exact ⟨_, rfl, .nil, List.nil_prefix⟩
  | cons call calls ih =>
    obtain ⟨buf, size⟩ := call
    have hbuf : buf ≠ 0 := hcalls _ List.mem_cons_self
    have hcalls' := fun call hcall => hcalls call (List.mem_cons_of_mem _ hcall)
    have hbroken : Broken left w (w.recv N fuel buf size) →
        FailStop N fuel ((buf, size) :: calls) payloads w := by
      intro hbroken
      refine .cons_of_broken hbroken ?_ ?_
      · intro start v hcall hv hnoise hframing
        rw [← hnoise] at hcarries
        exact ih hcarries ⟨hv, start, hframing⟩ hleft hcalls' (hroomy _ _ hcall).2
      · intro v hv
        exact fail_stop_of_nothing (show 2 ≤ fuel by omega) hv.listener hcalls' payloads
    cases hcarries with
    | nil =>
      obtain rfl : left = [] := List.prefix_nil.mp hleft
      exact hbroken (recv_ends_nil (show 2 ≤ fuel by omega) hbuf hw size).1
    | @cons noise noise' sealed payload padding frames payloads hlen hfits hopen hrest =>
      obtain ⟨b, v, hends⟩ | ⟨result, hends⟩ :=
        recv_ends (N := N) hfuel hbuf hw hleft (by omega) hfits
      · rw [← hends.noise] at hopen
        have hcall := hends.call size
        have hsize : payload.length ≤ size := by
          rw [recv_frame_eq hends.read hopen (by omega)] at hcall
          by_contra hover
          rw [if_pos (Nat.lt_of_not_le hover)] at hcall
          exact hover ((hroomy _ _ hcall).1 (by simp) payload rfl)
        obtain ⟨u, hdone, hmem, rfl, hu⟩ :=
          recv_frame_carries hends.listening hends.read hopen (by omega)
        rw [hdone size hsize] at hcall
        have hnext := (hroomy _ _ hcall).2
        rw [if_pos (Int.natCast_nonneg _)] at hnext
        exact .cons_of_payload hcall (by rw [hends.payload_at]; exact hmem)
          (ih hrest hu hends.rest hcalls' hnext)
      · rw [hends.call size] at hbroken
        exact hbroken hends.broken

/-- The stream of two frames: the first comes in, with two bytes of padding, and the socket fails inside the
second. -/
def two_frames : Endpoint Pattern :=
  pattern_server [.data 0 [21, 0, 1], .again, .data 7 ([0, 0] ++ Pattern.tag ++ [0, 21, 0, 3]), .error,
    .data 1 ([2, 3] ++ Pattern.tag)] false

/-- The first call pauses, so it needs no room. -/
theorem fail_stop_of_two_frames :
    FailStop pattern_xx 65536 [(100, 0), (100, 1), (100, 3), (100, 4)] [[7], [1, 2, 3]] two_frames := by
  have hcarries : Carries pattern_xx ⟨.responder, 0⟩
      [[0, 1, 7, 0, 0] ++ Pattern.tag, [0, 3, 1, 2, 3] ++ Pattern.tag] [[7], [1, 2, 3]] :=
    @Carries.cons _ _ _ _ _ _ [0, 0] _ _ rfl (by decide) rfl
      (@Carries.cons _ _ _ _ _ _ [] _ _ rfl (by decide) rfl (.nil _))
  have hlistener : Listener two_frames
      ([0, 21, 0, 1, 7, 0, 0] ++ Pattern.tag ++ [0, 21, 0, 3, 1, 2, 3] ++ Pattern.tag) :=
    ⟨⟨rfl, by decide, rfl⟩, 0, .between rfl rfl⟩
  have hroomy : Roomy pattern_xx 65536 [(100, 0), (100, 1), (100, 3), (100, 4)] [[7], [1, 2, 3]] two_frames :=
    .cons rfl (by decide) (.cons rfl (by decide) (.cons rfl (by decide) (.cons rfl (by decide) trivial)))
  exact recv_run_fail_stop (Nat.le_refl 65536) hcarries hlistener (by decide) (by decide) hroomy

/-- Behind a failed call there is one that does not fail. -/
theorem not_failStop_of_codes {payloads : List (List UInt8)} {codes : List Int}
    (hcodes : (recv_run N fuel calls w).map (fun r => r.1.map Prod.fst) = ok codes)
    (hnot : ¬ codes.Pairwise fun n later => n = NGX_ERROR → later = NGX_ERROR) :
    ¬ FailStop N fuel calls payloads w := by
  rintro ⟨r, hrun, hsticky, -⟩
  rw [hrun, map_ok] at hcodes
  apply hnot
  rw [← Result.ok.inj hcodes, List.pairwise_map]
  exact hsticky

end

/-- A frame whose tag is wrong, and a good one behind it: the good one is delivered. -/
theorem not_fail_stop_of_bad_tag : ¬ FailStop pattern_xx 65536 [(100, 16), (100, 16)] [[7], [1, 2, 3]]
    (pattern_server [.data 0 ([19, 0, 1, 7] ++ List.replicate 16 1 ++ [0, 21, 0, 3, 1, 2, 3] ++
      Pattern.tag)] false) :=
  not_failStop_of_codes (show _ = ok [NGX_ERROR, 3] from rfl) (by decide)

/-- A payload above the size of the call: the frame behind it is delivered. -/
theorem not_fail_stop_of_long_payload :
    ¬ FailStop pattern_xx 65536 [(100, 2), (100, 16), (100, 16)] [[1, 2, 3], [7]]
      (pattern_server [.data 0 ([21, 0, 3, 1, 2, 3] ++ Pattern.tag ++ [0, 19, 0, 1, 7] ++ Pattern.tag)]
        false) :=
  not_failStop_of_codes (show _ = ok [NGX_ERROR, 0, 1] from rfl) (by decide)

end Endpoint

end ngx_nsoc
