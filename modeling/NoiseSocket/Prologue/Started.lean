import NoiseSocket.Prologue.Negotiation

open Exec Exec.Result

namespace ngx_nsoc

variable {S : Type}

theorem hostBytes_hostWord (lo hi : UInt8) : hostBytes (hostWord lo hi) = [lo, hi] := by
  have hlo : (hostWord lo hi).toUInt8 = lo := by
    apply UInt8.toBitVec_inj.mp
    ext i hlt
    simp [hostWord]
  have hhi : (hostWord lo hi >>> 8).toUInt8 = hi := by
    apply UInt8.toBitVec_inj.mp
    ext i hlt
    simp [hostWord, show 8 + i < 16 by omega, show i < 16 by omega, BitVec.getLsbD_eq_getElem hlt]
  rw [hostBytes, hlo, hhi]

/-- The header of a buffer that holds nothing else is the buffer. -/
theorem FirstHdr.bytes_of_ofBytes {bytes : List UInt8} {first_hdr : FirstHdr}
    (hhdr : FirstHdr.ofBytes bytes = some first_hdr)
    (hlength : bytes.length = NGX_NSOC_1MSG_NEG_DATA_SIZE) : first_hdr.bytes = bytes := by
  match bytes, hlength with
  | [v0, v1, dh, cipher, hash, pattern], _ =>
    cases hhdr
    simp only [FirstHdr.bytes, hostBytes_hostWord]
    rfl

/-- The reply to a message of another version is not taken for a message of this one. -/
theorem FirstHdr.version_of_err_message {bytes : List UInt8} {first_hdr : FirstHdr}
    (hhdr : FirstHdr.ofBytes bytes = some first_hdr) (herr : Endpoint.err_message <+: bytes) :
    first_hdr.version_id ≠ NGX_NSOC_VERSION_ID := by
  obtain ⟨rest, rfl⟩ := herr
  have hlong : Endpoint.err_message = [0x00, 0x03, 0x00, 0x01, 0xFF, 0x00, 0x00] := by decide
  rw [hlong] at hhdr
  cases hhdr
  decide

/-- Whether the observation is of a prologue that noise-c gets. -/
def Obs.isPrologue : Obs → Bool
  | .set_prologue _ => true
  | _ => false

theorem Obs.isPrologue_of_isRead {o : Obs} (h : o.isRead) : o.isPrologue = false := by
  cases o <;> simp_all [Obs.isRead, Obs.isPrologue]

/-- `P earlier bytes` holds of every prologue `bytes` that noise-c got, with what had been
observed up to then. -/
def Handed (P : List Obs → List UInt8 → Prop) : List Obs → Prop
  | [] => True
  | o :: trace => Handed P trace ∧ ∀ bytes, o = .set_prologue bytes → P trace bytes

theorem Handed.append {P : List Obs → List UInt8 → Prop} {obs trace : List Obs}
    (h : Handed P trace) (hobs : ∀ o ∈ obs, o.isPrologue = false) : Handed P (obs ++ trace) := by
  induction obs with
  | nil => exact h
  | cons o obs ih =>
    refine ⟨ih fun o' ho' => hobs o' (List.mem_cons_of_mem _ ho'), fun bytes ho => ?_⟩
    have hother := hobs o List.mem_cons_self
    rw [ho] at hother
    cases hother

theorem Handed.apply {P : List Obs → List UInt8 → Prop} {later earlier : List Obs}
    {bytes : List UInt8} (h : Handed P (later ++ .set_prologue bytes :: earlier)) :
    P earlier bytes := by
  induction later with
  | nil => exact h.2 bytes rfl
  | cons o later ih => exact ih h.1

namespace Endpoint

/-- What may happen to an endpoint as long as noise-c gets no prologue. -/
structure Quiet (w v : Endpoint S) : Prop where
  prologue : v.prologue = w.prologue
  role : v.nc.noise_role = w.nc.noise_role
  phase : w.nc.handshake_phase ≠ .none_phase → v.nc.handshake_phase ≠ .none_phase
  trace : ∃ obs, v.trace = obs ++ w.trace ∧ ∀ o ∈ obs, o.isPrologue = false

theorem Quiet.trans {u v w : Endpoint S} (h : Quiet u v) (h' : Quiet v w) : Quiet u w := by
  obtain ⟨obs, hobs, hquiet⟩ := h.trace
  obtain ⟨obs', hobs', hquiet'⟩ := h'.trace
  refine ⟨h'.prologue.trans h.prologue, h'.role.trans h.role, fun hw => h'.phase (h.phase hw),
    obs' ++ obs, by simp [hobs', hobs], fun o ho => ?_⟩
  cases List.mem_append.mp ho with
  | inl ho => exact hquiet' o ho
  | inr ho => exact hquiet o ho

/-- A step that is observed as `obs` and touches neither prologue nor role nor phase. -/
theorem quiet_of_trace {w v : Endpoint S} (obs : List Obs) (hprologue : v.prologue = w.prologue)
    (hrole : v.nc.noise_role = w.nc.noise_role)
    (hphase : v.nc.handshake_phase = w.nc.handshake_phase) (htrace : v.trace = obs ++ w.trace)
    (hobs : ∀ o ∈ obs, o.isPrologue = false) : Quiet w v :=
  ⟨hprologue, hrole, fun hw => by rwa [hphase], obs, htrace, hobs⟩

theorem Reads.quiet {w v : Endpoint S} (h : Reads w v) : Quiet w v := by
  obtain ⟨obs, htrace, hread⟩ := h.trace
  exact quiet_of_trace obs h.prologue h.noise_role h.handshake_phase htrace
    fun o ho => Obs.isPrologue_of_isRead (hread o ho)

theorem SendFrame.quiet {w v : Endpoint S} (h : SendFrame w v) : Quiet w v :=
  quiet_of_trace [] h.prologue (by rw [h.nc]) (by rw [h.nc]) h.trace (by simp)

theorem SendOutcome.quiet {N : NoiseC S} {b : Buf} {w : Endpoint S}
    {flow : ControlFlow (Endpoint S) (Int × Endpoint S)} (h : SendOutcome N b w flow) :
    Quiet w (flowState flow) := by
  cases h with
  | refused hframe _ | blocked hframe _ _ _ _ | wait hframe _ _ _ _ _ | go_on hframe _ _ _ _ =>
    exact hframe.quiet

theorem quiet_of_write {N : NoiseC S} {w v : Endpoint S} {n : Int} {b : Option Buf}
    (h : w.handshake_start_action_write_message N = ok (n, b, v)) : Quiet w v := by
  obtain ⟨hframe, hout⟩ := write_message_cases h
  have hquiet : ∀ obs, v.trace = obs ++ w.trace → (∀ o ∈ obs, o.isPrologue = false) → Quiet w v := by
    intro obs htrace hobs
    exact quiet_of_trace obs hframe.prologue (by rw [hframe.nc]) (by rw [hframe.nc]) htrace hobs
  cases hout with
  | refused _ htrace => exact hquiet [] htrace (by simp)
  | error_message _ _ _ htrace => exact hquiet [] htrace (by simp)
  | noise_error _ _ _ _ _ htrace => exact hquiet [_] htrace (by simp [Obs.isPrologue])
  | written _ _ _ _ _ _ _ htrace => exact hquiet [_] htrace (by simp [Obs.isPrologue])

theorem MessageSteps.quiet {N : NoiseC S} {w : Endpoint S} {r : Int × Endpoint S}
    (h : MessageSteps N w r) : Quiet w r.2 := by
  cases h with
  | gate_ret n v hgate hr =>
    rw [hr]
    exact hgate.reads.quiet
  | gate_stop n v hgate hn hr =>
    rw [hr]
    exact hgate.reads.quiet.trans (reads_setBuf _ _).quiet
  | msg_stop n v hgate hn hmsg hr =>
    exact hgate.reads.quiet.trans ((reads_setBuf _ _).quiet.trans hmsg.frame.reads.quiet)
  | rejected n v q b code noise hgate hn hmsg hq hbuf hcall hcode hr =>
    rw [hr]
    refine (hgate.reads.quiet.trans ((reads_setBuf _ _).quiet.trans hmsg.frame.reads.quiet)).trans ?_
    exact quiet_of_trace [_] rfl rfl rfl rfl (by simp [Obs.isPrologue])
  | accepted n v q b noise hgate hn hmsg hq hbuf hcall hr =>
    rw [hr]
    refine (hgate.reads.quiet.trans ((reads_setBuf _ _).quiet.trans hmsg.frame.reads.quiet)).trans ?_
    exact quiet_of_trace [_] rfl rfl rfl rfl (by simp [Obs.isPrologue])

theorem quiet_split_action (N : NoiseC S) (w : Endpoint S) : Quiet w (w.split_action N).2 := by
  unfold split_action
  dsimp only
  split_ifs
  · exact quiet_of_trace [] rfl rfl rfl rfl (by simp)
  · exact quiet_of_trace [] rfl rfl rfl rfl (by simp)
  · exact ⟨rfl, rfl, fun _ => by simp, [], rfl, by simp⟩

/-- The prologue is handed over before the phase `NGX_NSOC_HANDSHAKE_PROCESS_PHASE`. -/
theorem ProcessStep.quiet {N : NoiseC S} {w : Endpoint S}
    {flow : ControlFlow (Endpoint S) (Int × Endpoint S)} (h : ProcessStep N w flow) :
    Quiet w (flowState flow) := by
  cases h with
  | write_failed _ _ hmsg _ => exact quiet_of_write hmsg
  | write_new _ _ hmsg => exact (quiet_of_write hmsg).trans (send_action_cases N _ _).quiet
  | write_old _ _ _ => exact (send_action_cases N _ _).quiet
  | read_stopped _ hsteps _ => exact (w.reads_setLast 0).quiet.trans hsteps.quiet
  | read_done _ hsteps _ => exact (w.reads_setLast 0).quiet.trans hsteps.quiet
  | split _ => exact quiet_split_action N w
  | failed => exact quiet_of_trace [] rfl rfl rfl rfl (by simp)

theorem Quiet.handed {P : List Obs → List UInt8 → Prop} {w v : Endpoint S} (hquiet : Quiet w v)
    (h : Handed P w.trace) : Handed P v.trace := by
  obtain ⟨obs, htrace, hobs⟩ := hquiet.trace
  rw [htrace]
  exact h.append hobs

/-- A call of `ngx_noise_protocol_init_handshake` on `w` has passed `bytes` to noise-c, which
had taken the protocol id. -/
structure InitCall (N : NoiseC S) (w : Endpoint S) (earlier : List Obs) (bytes : List UInt8) :
    Prop where
  trace : w.trace = earlier
  prologue : w.prologue.bytes = bytes
  call : ∃ r later, ngx_noise_protocol.init_handshake N w = ok r ∧
    r.2.trace = later ++ .set_prologue bytes :: earlier
  accepted : ∃ s, (N.handshakestate_new_by_id (ngx_noise_protocol.protocol_id w.prologue)
    (ngx_noise_protocol.noise_role w.nc.noise_role) s).1 = NOISE_ERROR_NONE

theorem quiet_local_keypair {N : NoiseC S} {w w' : Endpoint S} {n : Int}
    (h : ngx_noise_protocol.init_local_keypair N w = ok (n, w')) : Quiet w w' := by
  unfold ngx_noise_protocol.init_local_keypair at h
  split_ifs at h
  · split at h
    · cases h
    · cases h
      exact quiet_of_trace [_] rfl rfl rfl rfl (by simp [Obs.isPrologue])
  · cases h
    exact (Reads.refl w).quiet

theorem quiet_remote_public_key {N : NoiseC S} {w w' : Endpoint S} {n : Int}
    (h : ngx_noise_protocol.init_remote_public_key N w = ok (n, w')) : Quiet w w' := by
  unfold ngx_noise_protocol.init_remote_public_key at h
  split_ifs at h
  · split at h
    · cases h
    · cases h
      exact quiet_of_trace [_] rfl rfl rfl rfl (by simp [Obs.isPrologue])
  · cases h
    exact (Reads.refl w).quiet

/-- What the setting up of the noise-c objects adds to the trace. -/
inductive InitTrace (N : NoiseC S) (w : Endpoint S) (n : Int) (v : Endpoint S) : Prop where
  | refused (hn : n = NGX_ERROR) (htrace : v.trace = w.trace)
  | passed (obs : List Obs) (htrace : v.trace = obs ++ .set_prologue w.prologue.bytes :: w.trace)
      (hobs : ∀ o ∈ obs, o.isPrologue = false) (hcall : InitCall N w w.trace w.prologue.bytes)

theorem init_handshake_trace {N : NoiseC S} {w v : Endpoint S} {n : Int}
    (h : ngx_noise_protocol.init_handshake N w = ok (n, v)) : InitTrace N w n v := by
  have hpassed : ∀ s, (N.handshakestate_new_by_id (ngx_noise_protocol.protocol_id w.prologue)
      (ngx_noise_protocol.noise_role w.nc.noise_role) s).1 = NOISE_ERROR_NONE →
      ∀ obs, v.trace = obs ++ .set_prologue w.prologue.bytes :: w.trace →
      (∀ o ∈ obs, o.isPrologue = false) → InitTrace N w n v := by
    intro s hnew obs htrace hobs
    exact .passed obs htrace hobs ⟨rfl, rfl, ⟨_, obs, h, htrace⟩, s, hnew⟩
  have hinit := h
  unfold ngx_noise_protocol.init_handshake at hinit
  dsimp only at hinit
  split_ifs at hinit with _ hnew
  · cases hinit
    exact .refused rfl rfl
  · cases hinit
    exact .refused rfl rfl
  · cases hinit
    exact hpassed _ (not_not.mp hnew) [] rfl (by simp)
  · rw [bind_eq_ok_iff] at hinit
    obtain ⟨⟨rc, u⟩, hlocal, hrest⟩ := hinit
    have hquiet : Quiet u v := by
      dsimp only at hrest
      by_cases hrc : rc = NGX_OK
      · rw [if_neg (not_not.mpr hrc)] at hrest
        exact quiet_remote_public_key hrest
      · rw [if_pos hrc] at hrest
        cases hrest
        exact (Reads.refl _).quiet
    obtain ⟨obs, htrace, hobs⟩ := ((quiet_local_keypair hlocal).trans hquiet).trace
    exact hpassed _ (not_not.mp hnew) obs htrace hobs

/-- The end of the phase `NGX_NSOC_HANDSHAKE_NONE_PHASE`: `P` has to hold of the prologue. -/
theorem StartOutcome.handed {N : NoiseC S} {P : List Obs → List UInt8 → Prop} {w : Endpoint S}
    {flow : ControlFlow (Endpoint S) (Int × Endpoint S)} (h : w.start_handshake N = ok flow)
    (hw : Handed P w.trace) (hP : InitCall N w w.trace w.prologue.bytes → P w.trace w.prologue.bytes) :
    Handed P (flowState flow).trace := by
  simp only [start_handshake, bind_eq_ok_iff] at h
  obtain ⟨⟨n, v⟩, hinit, hrest⟩ := h
  have hv : Handed P v.trace := by
    cases init_handshake_trace hinit with
    | refused _ htrace =>
      rw [htrace]
      exact hw
    | passed obs htrace hobs hcall =>
      rw [htrace]
      refine Handed.append ⟨hw, fun bytes hbytes => ?_⟩ hobs
      cases hbytes
      exact hP hcall
  dsimp only at hrest
  split_ifs at hrest
  · cases hrest
    exact hv
  · cases hrest
    exact hv

end Endpoint

end ngx_nsoc
