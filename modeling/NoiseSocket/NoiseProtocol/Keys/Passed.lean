import NoiseSocket.Handler.Handshake.Phases
import NoiseSocket.NoiseC.Pattern
import NoiseSocket.NoiseProtocol.Keys.Loaded

open Exec Exec.Result

namespace ngx_noise_protocol

open ngx_nsoc

variable {S : Type}

/-- noise-c behind the prologue, if it has accepted the protocol and the prologue. -/
def prologue_state (N : NoiseC S) (w : Endpoint S) : Option S :=
  let init := N.noise_init w.noise
  if init.1 ≠ NOISE_ERROR_NONE then none else
  let new := N.handshakestate_new_by_id (protocol_id w.prologue) (noise_role w.nc.noise_role) init.2
  if new.1 ≠ NOISE_ERROR_NONE then none else
  let set := N.handshakestate_set_prologue w.prologue.bytes new.2
  if set.1 ≠ NOISE_ERROR_NONE then none else some set.2

/-- noise-c when it asks for the local key pair. -/
def local_key_state (N : NoiseC S) (w : Endpoint S) : Option S :=
  (prologue_state N w).filter N.handshakestate_needs_local_keypair

/-- noise-c when it asks for the remote public key; `key` is the local key it was
given if it asked for one. -/
def remote_key_state (N : NoiseC S) (w : Endpoint S) (key : S → List UInt8) : Option S :=
  let next := (prologue_state N w).bind fun s =>
    if N.handshakestate_needs_local_keypair s then
      if (N.dhstate_set_keypair_private (key s) s).1 = NOISE_ERROR_NONE then
        some (N.dhstate_set_keypair_private (key s) s).2
      else none
    else some s
  next.filter N.handshakestate_needs_remote_public_key

/-- The bytes stored at the elements of a key array. -/
def key_at (w : Endpoint S) (keys : Option KeyArray) (len : Nat) : List UInt8 :=
  match keys with
  | none => []
  | some keys => w.mem.read keys.elts len

/-- What is passed to `noise_dhstate_set_keypair_private` where `s` asks for it. -/
def local_key (N : NoiseC S) (w : Endpoint S) (s : S) : List UInt8 :=
  key_at w w.nc.noise_ctx.private_keys (N.dhstate_get_private_key_length s)

/-- What is passed to `noise_dhstate_set_public_key` where `s` asks for it. -/
def remote_key (N : NoiseC S) (w : Endpoint S) (s : S) : List UInt8 :=
  key_at w w.nc.noise_ctx.public_keys (N.dhstate_get_public_key_length s)

/-- The observations of the local key pair. -/
theorem init_local_keypair_obs {N : NoiseC S} {w w' : Endpoint S} {rc : Int}
    (h : init_local_keypair N w = ok (rc, w')) :
    if N.handshakestate_needs_local_keypair w.noise then
      w'.trace = .set_keypair_private (local_key N w w.noise) :: w.trace ∧
      w'.noise = (N.dhstate_set_keypair_private (local_key N w w.noise) w.noise).2 ∧
      (rc = NGX_OK ↔
        (N.dhstate_set_keypair_private (local_key N w w.noise) w.noise).1 = NOISE_ERROR_NONE)
    else w' = w ∧ rc = NGX_OK := by
  unfold init_local_keypair at h
  split_ifs at h ⊢ with hneeds
  · cases hkeys : w.nc.noise_ctx.private_keys with
    | none => simp [hkeys] at h
    | some keys =>
      have hkey : local_key N w w.noise =
          w.mem.read keys.elts (N.dhstate_get_private_key_length w.noise) := by
        simp [local_key, key_at, hkeys]
      rw [hkeys] at h
      cases h
      rw [hkey]
      refine ⟨rfl, rfl, ?_⟩
      split_ifs with herr
      · simp [herr]
      · simpa using herr
  · cases h
    exact ⟨rfl, rfl⟩

theorem init_remote_public_key_obs {N : NoiseC S} {w w' : Endpoint S} {rc : Int}
    (h : init_remote_public_key N w = ok (rc, w')) :
    if N.handshakestate_needs_remote_public_key w.noise then
      w.nc.noise_ctx.public_keys ≠ none ∧
        w'.trace = .set_public_key (remote_key N w w.noise) :: w.trace
    else w'.trace = w.trace := by
  unfold init_remote_public_key at h
  split_ifs at h ⊢ with hneeds
  · cases hkeys : w.nc.noise_ctx.public_keys with
    | none => simp [hkeys] at h
    | some keys =>
      rw [hkeys] at h
      cases h
      refine ⟨by simp, ?_⟩
      simp [remote_key, key_at, hkeys]
  · cases h
    rfl

/-- The keys `ngx_noise_protocol_init_handshake` passes to noise-c. -/
theorem init_handshake_obs {N : NoiseC S} {w w' : Endpoint S} {rc : Int} {obs : List Obs}
    (h : init_handshake N w = ok (rc, w')) (hobs : w'.trace = obs ++ w.trace) (key : List UInt8) :
    (.set_keypair_private key ∈ obs ↔ ∃ s, local_key_state N w = some s ∧ key = local_key N w s) ∧
      (.set_public_key key ∈ obs ↔
        ∃ s, remote_key_state N w (local_key N w) = some s ∧ key = remote_key N w s) ∧
      ∀ s, remote_key_state N w (local_key N w) = some s → w.nc.noise_ctx.public_keys ≠ none := by
  have hcancel : ∀ {more : List Obs}, w'.trace = more ++ w.trace → obs = more := by
    intro more hmore
    exact List.append_cancel_right (hobs.symm.trans hmore)
  unfold init_handshake at h
  dsimp only at h
  by_cases hinit : (N.noise_init w.noise).1 = NOISE_ERROR_NONE
  swap
  · rw [if_pos hinit] at h
    cases h
    obtain rfl := hcancel (List.nil_append _).symm
    simp [local_key_state, remote_key_state, prologue_state, hinit]
  rw [if_neg (not_not.mpr hinit)] at h
  by_cases hnew : (N.handshakestate_new_by_id (protocol_id w.prologue) (noise_role w.nc.noise_role)
      (N.noise_init w.noise).2).1 = NOISE_ERROR_NONE
  swap
  · rw [if_pos hnew] at h
    cases h
    obtain rfl := hcancel (List.nil_append _).symm
    simp [local_key_state, remote_key_state, prologue_state, hinit, hnew]
  rw [if_neg (not_not.mpr hnew)] at h
  generalize hset : N.handshakestate_set_prologue w.prologue.bytes
    (N.handshakestate_new_by_id (protocol_id w.prologue) (noise_role w.nc.noise_role)
      (N.noise_init w.noise).2).2 = set at h
  by_cases herr : set.1 = NOISE_ERROR_NONE
  swap
  · rw [if_pos herr] at h
    cases h
    obtain rfl := hcancel (show _ = [Obs.set_prologue w.prologue.bytes] ++ w.trace from rfl)
    simp [local_key_state, remote_key_state, prologue_state, hinit, hnew, hset, herr]
  rw [if_neg (not_not.mpr herr), bind_eq_ok_iff] at h
  have hstate : prologue_state N w = some set.2 := by
    simp [prologue_state, hinit, hnew, hset, herr]
  obtain ⟨⟨rc', v⟩, hlocal, hrest⟩ := h
  have hframe := (Endpoint.initFrame_local_keypair hlocal).1
  have hpassed := init_local_keypair_obs hlocal
  -- what the local key adds to the trace, and noise-c behind it
  obtain ⟨keyed, htrace, hkeyed, hnext⟩ : ∃ keyed : List Obs,
      v.trace = keyed ++ [.set_prologue w.prologue.bytes] ++ w.trace ∧
      (∀ o, o ∈ keyed ↔ ∃ s, local_key_state N w = some s ∧
        o = .set_keypair_private (local_key N w s)) ∧
      remote_key_state N w (local_key N w) =
        if rc' = NGX_OK then (some v.noise).filter N.handshakestate_needs_remote_public_key
        else none := by
    by_cases hneeds : N.handshakestate_needs_local_keypair set.2 = true
    · rw [if_pos hneeds] at hpassed
      obtain ⟨htrace, hnoise, hrc⟩ := hpassed
      refine ⟨[.set_keypair_private (local_key N w set.2)], htrace, ?_, ?_⟩
      · simp [local_key_state, hstate, hneeds]
      · by_cases hok : rc' = NGX_OK
        · rw [if_pos hok, hnoise]
          have hset := hrc.mp hok
          simp only [remote_key_state, hstate, Option.bind_some, if_pos hneeds]
          rw [if_pos (by exact hset)]
          rfl
        · rw [if_neg hok]
          have hset := mt hrc.mpr hok
          simp only [remote_key_state, hstate, Option.bind_some, if_pos hneeds]
          rw [if_neg (by exact hset)]
          rfl
    · rw [if_neg hneeds] at hpassed
      obtain ⟨rfl, rfl⟩ := hpassed
      refine ⟨[], rfl, ?_, ?_⟩
      · simp [local_key_state, hstate, hneeds]
      · simp only [remote_key_state, hstate, Option.bind_some, if_neg hneeds, if_true]
  dsimp only at hrest
  by_cases hok : rc' = NGX_OK
  swap
  · rw [if_pos hok] at hrest
    cases hrest
    obtain rfl := hcancel htrace
    rw [hnext, if_neg hok]
    simp [hkeyed]
  rw [if_neg (not_not.mpr hok)] at hrest
  have hremote := init_remote_public_key_obs hrest
  have hkey : remote_key N v v.noise = remote_key N w v.noise := by
    simp only [remote_key, key_at, hframe.nc, hframe.mem]
  rw [hnext, if_pos hok]
  by_cases hneeds : N.handshakestate_needs_remote_public_key v.noise = true
  · rw [if_pos hneeds, hkey, htrace] at hremote
    obtain ⟨hkeys, hremote⟩ := hremote
    rw [hframe.nc] at hkeys
    have happend : w'.trace = (.set_public_key (remote_key N w v.noise) ::
        (keyed ++ [.set_prologue w.prologue.bytes])) ++ w.trace := hremote
    obtain rfl := hcancel happend
    simpa [hkeyed, hneeds] using hkeys
  · rw [if_neg hneeds, htrace] at hremote
    obtain rfl := hcancel hremote
    simp [hkeyed, hneeds]

end ngx_noise_protocol
