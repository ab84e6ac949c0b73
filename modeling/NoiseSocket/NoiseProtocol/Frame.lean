import NoiseSocket.NoiseProtocol.Init

open Exec Exec.Result

namespace ngx_noise_protocol

open ngx_nsoc

variable {S : Type}

/-- Two endpoints with the same noise-c objects, prologue and keys. -/
structure SameKeys (w u : Endpoint S) : Prop where
  noise : u.noise = w.noise
  prologue : u.prologue = w.prologue
  mem : u.mem = w.mem
  noise_ctx : u.nc.noise_ctx = w.nc.noise_ctx
  noise_role : u.nc.noise_role = w.nc.noise_role

/-- The outcomes of one call on two endpoints: the same code, the same noise-c
objects, the same observations. -/
inductive SameOutcome (w u : Endpoint S) : Result (Int × Endpoint S) → Result (Int × Endpoint S) →
    Prop where
  | ok {n : Int} {v v' : Endpoint S} (obs : List Obs) (hkeys : SameKeys v v')
      (htrace : v.trace = obs ++ w.trace) (htrace' : v'.trace = obs ++ u.trace) :
      SameOutcome w u (.ok (n, v)) (.ok (n, v'))
  | fault : SameOutcome w u .fault .fault

theorem SameOutcome.prepend {w u w' u' : Endpoint S} {obs : List Obs}
    (hw : w'.trace = obs ++ w.trace) (hu : u'.trace = obs ++ u.trace)
    {r r' : Result (Int × Endpoint S)} (h : SameOutcome w' u' r r') : SameOutcome w u r r' := by
  cases h with
  | ok obs' hkeys htrace htrace' =>
    exact .ok (obs' ++ obs) hkeys (by rw [htrace, hw, List.append_assoc])
      (by rw [htrace', hu, List.append_assoc])
  | fault => exact .fault

theorem init_local_keypair_same (N : NoiseC S) {w u : Endpoint S} (h : SameKeys w u) :
    SameOutcome w u (init_local_keypair N w) (init_local_keypair N u) := by
  obtain ⟨c, nc, noise, prologue, mem, env, trace⟩ := w
  obtain ⟨c', nc', _, _, _, env', trace'⟩ := u
  obtain ⟨rfl, rfl, rfl, hctx, hrole⟩ := h
  dsimp only at hctx hrole
  simp only [init_local_keypair, hctx]
  split_ifs
  · split
    · exact .fault
    · exact .ok [_] ⟨rfl, rfl, rfl, hctx, hrole⟩ rfl rfl
  · exact .ok [] ⟨rfl, rfl, rfl, hctx, hrole⟩ rfl rfl

theorem init_remote_public_key_same (N : NoiseC S) {w u : Endpoint S} (h : SameKeys w u) :
    SameOutcome w u (init_remote_public_key N w) (init_remote_public_key N u) := by
  obtain ⟨c, nc, noise, prologue, mem, env, trace⟩ := w
  obtain ⟨c', nc', _, _, _, env', trace'⟩ := u
  obtain ⟨rfl, rfl, rfl, hctx, hrole⟩ := h
  dsimp only at hctx hrole
  simp only [init_remote_public_key, hctx]
  split_ifs
  · split
    · exact .fault
    · exact .ok [_] ⟨rfl, rfl, rfl, hctx, hrole⟩ rfl rfl
  · exact .ok [] ⟨rfl, rfl, rfl, hctx, hrole⟩ rfl rfl

/-- The two keys, one after the other. -/
theorem init_tail_same (N : NoiseC S) {w u v v' : Endpoint S} (obs : List Obs)
    (hv : v.trace = obs ++ w.trace) (hv' : v'.trace = obs ++ u.trace) (h : SameKeys v v') :
    SameOutcome w u
      (init_local_keypair N v >>= fun r =>
        if r.1 ≠ NGX_OK then ok (NGX_ERROR, r.2) else init_remote_public_key N r.2)
      (init_local_keypair N v' >>= fun r =>
        if r.1 ≠ NGX_OK then ok (NGX_ERROR, r.2) else init_remote_public_key N r.2) := by
  refine SameOutcome.prepend hv hv' ?_
  generalize init_local_keypair N v = r, init_local_keypair N v' = r',
    init_local_keypair_same N h = hlocal
  cases hlocal with
  | fault => exact .fault
  | @ok n q q' obs' hkeys htrace htrace' =>
    simp only [bind_ok]
    split_ifs
    · exact .ok obs' hkeys htrace htrace'
    · exact (init_remote_public_key_same N hkeys).prepend htrace htrace'

/-- `ngx_noise_protocol_init_handshake` sees nothing of the connection but its
keys. -/
theorem init_handshake_same (N : NoiseC S) {w u : Endpoint S} (h : SameKeys w u) :
    SameOutcome w u (init_handshake N w) (init_handshake N u) := by
  obtain ⟨c, nc, noise, prologue, mem, env, trace⟩ := w
  obtain ⟨c', nc', _, _, _, env', trace'⟩ := u
  obtain ⟨rfl, rfl, rfl, hctx, hrole⟩ := h
  dsimp only at hctx hrole
  simp only [init_handshake, hrole]
  split_ifs
  · exact .ok [] ⟨rfl, rfl, rfl, hctx, hrole⟩ rfl rfl
  · exact .ok [] ⟨rfl, rfl, rfl, hctx, hrole⟩ rfl rfl
  · exact .ok [_] ⟨rfl, rfl, rfl, hctx, hrole⟩ rfl rfl
  · refine init_tail_same N [_] rfl rfl ?_
    exact ⟨rfl, rfl, rfl, hctx, hrole⟩

theorem init_local_keypair_ne_div (N : NoiseC S) (w : Endpoint S) :
    init_local_keypair N w ≠ div := by
  unfold init_local_keypair
  split_ifs
  · split <;> simp
  · simp

theorem init_remote_public_key_ne_div (N : NoiseC S) (w : Endpoint S) :
    init_remote_public_key N w ≠ div := by
  unfold init_remote_public_key
  split_ifs
  · split <;> simp
  · simp

/-- Setting up the noise-c objects has no loop. -/
theorem init_handshake_ne_div (N : NoiseC S) (w : Endpoint S) : init_handshake N w ≠ div := by
  unfold init_handshake
  dsimp only
  split_ifs
  · simp
  · simp
  · simp
  · refine bind_ne_div (init_local_keypair_ne_div N _) ?_
    intro r _
    split_ifs
    · simp
    · exact init_remote_public_key_ne_div N _

end ngx_noise_protocol
