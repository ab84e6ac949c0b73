import NoiseSocket.Handler.Handshake.Cases

open Exec Exec.Result

namespace ngx_nsoc

variable {S : Type}

/-- Whether an observation is of the code that sets up the noise-c objects. -/
def Obs.isSetup : Obs → Bool
  | .set_prologue _ => true
  | .set_keypair_private _ => true
  | .set_public_key _ => true
  | _ => false

namespace Endpoint

/-- What setting up the noise-c objects leaves alone. -/
structure InitFrame (w w' : Endpoint S) : Prop where
  c : w'.c = w.c
  nc : w'.nc = w.nc
  prologue : w'.prologue = w.prologue
  mem : w'.mem = w.mem
  env : w'.env = w.env
  trace : ∃ obs, w'.trace = obs ++ w.trace ∧ ∀ o ∈ obs, o.isSetup = true

theorem InitFrame.refl (w : Endpoint S) : InitFrame w w :=
  ⟨rfl, rfl, rfl, rfl, rfl, [], rfl, by simp⟩

theorem InitFrame.trans {u v w : Endpoint S} (h : InitFrame u v) (h' : InitFrame v w) :
    InitFrame u w := by
  obtain ⟨obs, hobs, hkind⟩ := h.trace
  obtain ⟨obs', hobs', hkind'⟩ := h'.trace
  refine ⟨h'.c.trans h.c, h'.nc.trans h.nc, h'.prologue.trans h.prologue, h'.mem.trans h.mem,
    h'.env.trans h.env, obs' ++ obs, by simp [hobs', hobs], ?_⟩
  intro o ho
  rcases List.mem_append.mp ho with ho | ho
  · exact hkind' o ho
  · exact hkind o ho

theorem initFrame_noise (w : Endpoint S) (noise : S) : InitFrame w { w with noise } :=
  ⟨rfl, rfl, rfl, rfl, rfl, [], rfl, by simp⟩

theorem initFrame_local_keypair {N : NoiseC S} {w w' : Endpoint S} {n : Int}
    (h : ngx_noise_protocol.init_local_keypair N w = ok (n, w')) :
    InitFrame w w' ∧ (n = NGX_OK ∨ n = NGX_ERROR) := by
  unfold ngx_noise_protocol.init_local_keypair at h
  split_ifs at h with hneeds
  · split at h
    · cases h
    · cases h
      refine ⟨⟨rfl, rfl, rfl, rfl, rfl, [_], rfl, by simp [Obs.isSetup]⟩, ?_⟩
      split_ifs <;> simp
  · cases h
    exact ⟨.refl w, .inl rfl⟩

theorem initFrame_remote_public_key {N : NoiseC S} {w w' : Endpoint S} {n : Int}
    (h : ngx_noise_protocol.init_remote_public_key N w = ok (n, w')) :
    InitFrame w w' ∧ (n = NGX_OK ∨ n = NGX_ERROR) := by
  unfold ngx_noise_protocol.init_remote_public_key at h
  split_ifs at h with hneeds
  · split at h
    · cases h
    · cases h
      refine ⟨⟨rfl, rfl, rfl, rfl, rfl, [_], rfl, by simp [Obs.isSetup]⟩, ?_⟩
      split_ifs <;> simp
  · cases h
    exact ⟨.refl w, .inl rfl⟩

theorem init_handshake_cases {N : NoiseC S} {w w' : Endpoint S} {n : Int}
    (h : ngx_noise_protocol.init_handshake N w = ok (n, w')) :
    InitFrame w w' ∧ (n = NGX_OK ∨ n = NGX_ERROR) := by
  unfold ngx_noise_protocol.init_handshake at h
  dsimp only at h
  split_ifs at h
  · cases h
    exact ⟨w.initFrame_noise _, .inr rfl⟩
  · cases h
    exact ⟨w.initFrame_noise _, .inr rfl⟩
  · cases h
    exact ⟨⟨rfl, rfl, rfl, rfl, rfl, [_], rfl, by simp [Obs.isSetup]⟩, .inr rfl⟩
  · rw [bind_eq_ok_iff] at h
    obtain ⟨⟨rc, v⟩, hlocal, hrest⟩ := h
    obtain ⟨hframe, hrc⟩ := initFrame_local_keypair hlocal
    have hpro : InitFrame w v := by
      refine InitFrame.trans ?_ hframe
      exact ⟨rfl, rfl, rfl, rfl, rfl, [_], rfl, by simp [Obs.isSetup]⟩
    dsimp only at hrest
    split_ifs at hrest
    · cases hrest
      exact ⟨hpro, .inr rfl⟩
    · obtain ⟨hremote, hn⟩ := initFrame_remote_public_key hrest
      exact ⟨hpro.trans hremote, hn⟩

/-- The end of the first phase: an error, or the handshake has started. -/
inductive StartOutcome (N : NoiseC S) (w : Endpoint S) :
    ControlFlow (Endpoint S) (Int × Endpoint S) → Prop where
  | failed {v : Endpoint S} (hframe : InitFrame w v)
      (hinit : ngx_noise_protocol.init_handshake N w = ok (NGX_ERROR, v)) :
      StartOutcome N w (.done (NGX_ERROR, v.setBuf none))
  | started {v : Endpoint S} (hframe : InitFrame w v)
      (hinit : ngx_noise_protocol.init_handshake N w = ok (NGX_OK, v)) :
      StartOutcome N w (.cont { v with
        noise := (N.handshakestate_start v.noise).2
        nc := { w.nc with buf := none, handshake_phase := .process_phase, last := 0 } })

theorem start_handshake_cases {N : NoiseC S} {w : Endpoint S}
    {flow : ControlFlow (Endpoint S) (Int × Endpoint S)} (h : w.start_handshake N = ok flow) :
    StartOutcome N w flow := by
  simp only [start_handshake, bind_eq_ok_iff] at h
  obtain ⟨⟨n, v⟩, hinit, hrest⟩ := h
  obtain ⟨hframe, rfl | rfl⟩ := init_handshake_cases hinit
  · rw [if_neg (by simp)] at hrest
    cases hrest
    have hnc : { (v.setBuf none).nc with handshake_phase := .process_phase, last := 0 } =
        ({ w.nc with buf := none, handshake_phase := .process_phase, last := 0 } :
          NoiseConnection) := by
      rw [← hframe.nc]
      rfl
    rw [hnc]
    exact StartOutcome.started (v := v) hframe hinit
  · rw [if_pos rfl] at hrest
    cases hrest
    exact .failed hframe hinit

/-- What the reply to a first message of another version leaves alone. -/
structure ReplyFrame (w w' : Endpoint S) : Prop where
  trace : w'.trace = w.trace
  settled : w'.nc.settled = w.nc.settled
  neg_data : w'.nc.neg_data = w.nc.neg_data
  noise_msg : w'.nc.noise_msg = w.nc.noise_msg
  id : w'.c.id = w.c.id
  eof : w'.c.read.eof = w.c.read.eof
  hooked : w.IsHooked → w'.IsHooked

/-- The message is written without noise-c. -/
theorem WriteOutcome.of_error {N : NoiseC S} {w v : Endpoint S} {n : Int} {b : Option Buf}
    (hnum : w.nc.msg_num = NGX_NSOC_2MSG_ERR) (h : WriteOutcome N w v n b) :
    v.trace = w.trace ∧ (n = NGX_ERROR ∨ n = NGX_OK ∧
      b = some ⟨err_message, 0, message_room NGX_NSOC_2MSG_NEG_DATA_ERR_SIZE⟩) := by
  have hheader : w.message_header = none := by simp [message_header, hnum]
  cases h with
  | refused hn htrace => exact ⟨htrace, .inl hn⟩
  | error_message hn _ hb htrace => exact ⟨htrace, .inr ⟨hn, hb⟩⟩
  | noise_error code hn hcode hsome => exact absurd hheader hsome
  | written header message next hn hsome => simp [hheader] at hsome

/-- The reply to a first message of another version: it never succeeds. -/
theorem version_error_cases {N : NoiseC S} {w w' : Endpoint S} {n : Int}
    (h : w.version_error N = ok (n, w')) :
    ReplyFrame w w' ∧ (n = NGX_ERROR ∨ n = NGX_AGAIN ∧ w'.c.write.timer_set = true ∧ w'.IsHooked) := by
  simp only [version_error, bind_eq_ok_iff] at h
  obtain ⟨⟨code, b, v⟩, hmsg, hrest⟩ := h
  obtain ⟨hframe, hout⟩ := write_message_cases hmsg
  obtain ⟨htrace, rfl | ⟨rfl, rfl⟩⟩ := hout.of_error rfl
  · rw [if_pos (by simp)] at hrest
    cases hrest
    have hsettled : v.nc.settled = w.nc.settled := by
      rw [hframe.nc]
      rfl
    have hneg : v.nc.neg_data = w.nc.neg_data := by
      rw [hframe.nc]
      rfl
    have hmsg : v.nc.noise_msg = w.nc.noise_msg := by
      rw [hframe.nc]
      rfl
    exact ⟨⟨htrace, hsettled, hneg, hmsg, by rw [hframe.c]; rfl, by rw [hframe.c]; rfl,
      fun hw => ⟨by rw [hframe.c]; exact hw.read, by rw [hframe.c]; exact hw.write⟩⟩, .inl rfl⟩
  rw [if_neg (by simp)] at hrest
  dsimp only at hrest
  obtain ⟨hv, -⟩ := v.ngx_send_frame (err_message.drop 0)
  rw [hv] at hrest
  -- every exit from here on differs from `v` in the events, the buffer and `last` only
  have hreply : ∀ {u : Endpoint S}, u.trace = v.trace → u.c.id = v.c.id →
      u.c.read.eof = v.c.read.eof →
      u.nc = { v.nc with buf := u.nc.buf, last := u.nc.last } → u.IsHooked → ReplyFrame w u := by
    intro u htrace' hid heof hnc hhooked
    rw [hframe.nc] at hnc
    refine ⟨htrace'.trans htrace, ?_, ?_, ?_, by rw [hid, hframe.c]; rfl, by rw [heof, hframe.c]; rfl,
      fun _ => hhooked⟩
    all_goals
      rw [hnc]
      rfl
  split_ifs at hrest
  · obtain ⟨-, heq⟩ | heq := write_again_cases
      (Endpoint.setHandlers { v with env := { v.env with
        sends := (v.ngx_send (err_message.drop 0)).2.env.sends
        tx := (v.ngx_send (err_message.drop 0)).2.env.tx } } .handshake_handler)
      ⟨err_message, 0, message_room NGX_NSOC_2MSG_NEG_DATA_ERR_SIZE⟩
    · rw [heq] at hrest
      cases hrest
      exact ⟨hreply rfl rfl rfl rfl ⟨rfl, rfl⟩, .inl rfl⟩
    · rw [heq] at hrest
      cases hrest
      exact ⟨hreply rfl rfl rfl rfl ⟨rfl, rfl⟩, .inr ⟨rfl, rfl, rfl, rfl⟩⟩
  · cases hrest
    exact ⟨hreply rfl rfl rfl rfl ⟨rfl, rfl⟩, .inl rfl⟩

/-- Everything `ngx_nsoc_handshake_start_action_read_message` can do if it
returns; `q` is what the noise part gave. -/
inductive MessageSteps (N : NoiseC S) (w : Endpoint S) (r : Int × Endpoint S) : Prop where
  | gate_ret (n : Int) (v : Endpoint S) (hgate : GateOutcome w (.ret n v)) (hr : r = (n, v))
  | gate_stop (n : Int) (v : Endpoint S) (hgate : GateOutcome w (.leave n v)) (hn : n < 0)
      (hr : r = (n, v.setBuf none))
  | msg_stop (n : Int) (v : Endpoint S) (hgate : GateOutcome w (.leave n v)) (hn : 0 ≤ n)
      (hmsg : MsgSteps (v.setBuf none) r) (hr : r.1 < 0)
  | rejected (n : Int) (v : Endpoint S) (q : Int × Endpoint S) (b : Buf) (code : Nat) (noise : S)
      (hgate : GateOutcome w (.leave n v)) (hn : 0 ≤ n)
      (hmsg : MsgSteps (v.setBuf none) q) (hq : 0 ≤ q.1) (hbuf : q.2.nc.buf = some b)
      (hcall : N.handshakestate_read_message
        (b.bytes.take (q.2.nc.noise_msg.recv_size.getD 0)) q.2.noise = (code, noise))
      (hcode : code ≠ NOISE_ERROR_NONE)
      (hr : r = (NGX_ERROR, { q.2 with
        noise
        trace := .read_message (b.bytes.take (q.2.nc.noise_msg.recv_size.getD 0)) code ::
          q.2.trace }))
  | accepted (n : Int) (v : Endpoint S) (q : Int × Endpoint S) (b : Buf) (noise : S)
      (hgate : GateOutcome w (.leave n v)) (hn : 0 ≤ n)
      (hmsg : MsgSteps (v.setBuf none) q) (hq : 0 ≤ q.1) (hbuf : q.2.nc.buf = some b)
      (hcall : N.handshakestate_read_message
        (b.bytes.take (q.2.nc.noise_msg.recv_size.getD 0)) q.2.noise = (NOISE_ERROR_NONE, noise))
      (hr : r = (NGX_OK, Endpoint.message_done { q.2 with
        noise
        trace := .read_message (b.bytes.take (q.2.nc.noise_msg.recv_size.getD 0))
          NOISE_ERROR_NONE :: q.2.trace }))

theorem read_message_cases {N : NoiseC S} {fuel : Nat} {w : Endpoint S} {r : Int × Endpoint S}
    (h : w.handshake_start_action_read_message N fuel = ok r) : MessageSteps N w r := by
  simp only [handshake_start_action_read_message, bind_eq_ok_iff] at h
  obtain ⟨e, hloop, hrest⟩ := h
  have hgate := read_message_gate_cases hloop
  cases e with
  | ret n v => exact .gate_ret n v hgate (by simpa using hrest.symm)
  | leave n v =>
    dsimp only at hrest
    split_ifs at hrest with hn
    · exact .gate_stop n v hgate hn (by simpa using hrest.symm)
    simp only [read_message_noise, bind_eq_ok_iff] at hrest
    obtain ⟨q, hread, hrest⟩ := hrest
    have hmsg := read_noise_msg_cases hread
    split_ifs at hrest with hq
    · cases hrest
      exact .msg_stop n v hgate (by omega) hmsg hq
    rcases hbuf : q.2.nc.buf with _ | b
    · rw [hbuf] at hrest
      cases hrest
    · rw [hbuf] at hrest
      dsimp only at hrest
      rcases hcall : N.handshakestate_read_message
        (b.bytes.take (q.2.nc.noise_msg.recv_size.getD 0)) q.2.noise with ⟨code, noise⟩
      simp only [hcall] at hrest
      split_ifs at hrest with hcode
      · exact .rejected n v q b code noise hgate (by omega) hmsg (by omega) hbuf hcall hcode
          (by simpa using hrest.symm)
      · obtain rfl : code = NOISE_ERROR_NONE := by simpa using hcode
        exact .accepted n v q b noise hgate (by omega) hmsg (by omega) hbuf hcall
          (by simpa using hrest.symm)

/-- Everything the phase `NGX_NSOC_HANDSHAKE_PROCESS_PHASE` can do if it returns. -/
inductive ProcessStep (N : NoiseC S) (w : Endpoint S) :
    ControlFlow (Endpoint S) (Int × Endpoint S) → Prop where
  | write_failed {n : Int} {b : Option Buf} {v : Endpoint S}
      (haction : w.action N = NOISE_ACTION_WRITE_MESSAGE) (hlast : w.nc.last = 0)
      (hmsg : w.handshake_start_action_write_message N = ok (n, b, v)) (hn : n ≠ NGX_OK) :
      ProcessStep N w (.done (n, v))
  | write_new {b : Buf} {v : Endpoint S}
      (haction : w.action N = NOISE_ACTION_WRITE_MESSAGE) (hlast : w.nc.last = 0)
      (hmsg : w.handshake_start_action_write_message N = ok (NGX_OK, some b, v)) :
      ProcessStep N w (v.send_action N b)
  | write_old {b : Buf} (haction : w.action N = NOISE_ACTION_WRITE_MESSAGE)
      (hlast : w.nc.last = NOISE_ACTION_WRITE_MESSAGE) (hbuf : w.nc.buf = some b) :
      ProcessStep N w (w.send_action N b)
  | read_stopped {r : Int × Endpoint S} (haction : w.action N = NOISE_ACTION_READ_MESSAGE)
      (hsteps : MessageSteps N (w.setLast 0) r) (hn : r.1 ≠ NGX_OK) : ProcessStep N w (.done r)
  | read_done {r : Int × Endpoint S} (haction : w.action N = NOISE_ACTION_READ_MESSAGE)
      (hsteps : MessageSteps N (w.setLast 0) r) (hn : r.1 = NGX_OK) : ProcessStep N w (.cont r.2)
  | split (haction : w.action N = NOISE_ACTION_SPLIT) : ProcessStep N w (.done (w.split_action N))
  | failed (haction : w.action N ≠ NOISE_ACTION_WRITE_MESSAGE ∧ w.action N ≠ NOISE_ACTION_READ_MESSAGE ∧
      w.action N ≠ NOISE_ACTION_SPLIT) : ProcessStep N w (.done (NGX_ERROR, w))

theorem process_phase_cases {N : NoiseC S} {fuel : Nat} {w : Endpoint S}
    {flow : ControlFlow (Endpoint S) (Int × Endpoint S)} (h : w.process_phase N fuel = ok flow) :
    ProcessStep N w flow := by
  unfold process_phase at h
  by_cases hwrite : w.action N = NOISE_ACTION_WRITE_MESSAGE
  · rw [if_pos hwrite] at h
    by_cases hlast : w.nc.last = 0
    · simp only [write_action, if_pos hlast, bind_eq_ok_iff] at h
      obtain ⟨⟨n, b, v⟩, hmsg, hrest⟩ := h
      dsimp only at hrest
      by_cases hn : n = NGX_OK
      · subst hn
        rw [if_neg (by simp)] at hrest
        cases b with
        | none => cases hrest
        | some b =>
          cases hrest
          exact .write_new hwrite hlast hmsg
      · rw [if_pos hn] at hrest
        cases hrest
        exact .write_failed hwrite hlast hmsg hn
    · have hwas : w.nc.last = NOISE_ACTION_WRITE_MESSAGE := by simpa [action, hlast] using hwrite
      simp only [write_action, if_neg hlast, bind_ok] at h
      rw [if_neg (by simp)] at h
      rcases hbuf : w.nc.buf with _ | b
      · rw [hbuf] at h
        cases h
      · rw [hbuf] at h
        cases h
        exact .write_old hwrite hwas hbuf
  rw [if_neg hwrite] at h
  by_cases hread : w.action N = NOISE_ACTION_READ_MESSAGE
  · rw [if_pos hread, bind_eq_ok_iff] at h
    obtain ⟨r, hmsg, hrest⟩ := h
    have hsteps := read_message_cases hmsg
    dsimp only at hrest
    by_cases hn : r.1 = NGX_OK
    · rw [if_neg (not_not.mpr hn)] at hrest
      cases hrest
      exact .read_done hread hsteps hn
    · rw [if_pos hn] at hrest
      cases hrest
      exact .read_stopped hread hsteps hn
  rw [if_neg hread] at h
  split_ifs at h with hsplit
  · cases h
    exact .split hsplit
  · cases h
    exact .failed ⟨hwrite, hread, hsplit⟩

/-- Everything the phase `NGX_NSOC_HANDSHAKE_NONE_PHASE` can do. -/
inductive NoneStep (N : NoiseC S) (w : Endpoint S) :
    ControlFlow (Endpoint S) (Int × Endpoint S) → Prop where
  | client {flow : ControlFlow (Endpoint S) (Int × Endpoint S)}
      (hrole : w.nc.noise_role = .client) (hstart : StartOutcome N w flow) : NoneStep N w flow
  | neg_stopped {r : Int × Endpoint S} (hrole : w.nc.noise_role = .server)
      (hneg : NegSteps NGX_NSOC_1MSG_NEG_DATA_SIZE w r) (hn : r.1 ≤ 0) : NoneStep N w (.done r)
  | version {r q : Int × Endpoint S} {b : Buf} {first_hdr : FirstHdr}
      (hrole : w.nc.noise_role = .server)
      (hneg : NegSteps NGX_NSOC_1MSG_NEG_DATA_SIZE w r) (hn : 0 < r.1)
      (hbuf : r.2.nc.buf = some b) (hhdr : FirstHdr.ofBytes b.bytes = some first_hdr)
      (hversion : first_hdr.version_id ≠ NGX_NSOC_VERSION_ID)
      (hreply : r.2.version_error N = ok q) : NoneStep N w (.done q)
  | header {r : Int × Endpoint S} {b : Buf} {first_hdr : FirstHdr}
      {flow : ControlFlow (Endpoint S) (Int × Endpoint S)} (hrole : w.nc.noise_role = .server)
      (hneg : NegSteps NGX_NSOC_1MSG_NEG_DATA_SIZE w r) (hn : 0 < r.1)
      (hbuf : r.2.nc.buf = some b) (hhdr : FirstHdr.ofBytes b.bytes = some first_hdr)
      (hversion : first_hdr.version_id = NGX_NSOC_VERSION_ID)
      (hstart : StartOutcome N
        { r.2 with prologue := { r.2.prologue with header := first_hdr } } flow) :
      NoneStep N w flow

theorem none_phase_cases {N : NoiseC S} {fuel : Nat} {w : Endpoint S}
    {flow : ControlFlow (Endpoint S) (Int × Endpoint S)} (h : w.none_phase N fuel = ok flow) :
    NoneStep N w flow := by
  unfold none_phase at h
  rcases hrole : w.nc.noise_role with _ | _
  · rw [hrole] at h
    exact .client hrole (start_handshake_cases h)
  · rw [hrole] at h
    simp only [bind_eq_ok_iff] at h
    obtain ⟨r, hread, hrest⟩ := h
    have hneg := read_negotiation_cases hread
    by_cases hn : r.1 ≤ 0
    · rw [if_pos hn] at hrest
      cases hrest
      exact .neg_stopped hrole hneg hn
    rw [if_neg hn] at hrest
    rcases hbuf : r.2.nc.buf with _ | b
    · rw [hbuf] at hrest
      cases hrest
    rcases hhdr : FirstHdr.ofBytes b.bytes with _ | first_hdr
    · simp only [hbuf, Option.bind_some, hhdr] at hrest
      cases hrest
    simp only [hbuf, Option.bind_some, hhdr] at hrest
    by_cases hversion : first_hdr.version_id = NGX_NSOC_VERSION_ID
    · rw [if_neg (not_not.mpr hversion)] at hrest
      exact .header hrole hneg (by omega) hbuf hhdr hversion (start_handshake_cases hrest)
    · rw [if_pos hversion, bind_eq_ok_iff] at hrest
      obtain ⟨q, hreply, hdone⟩ := hrest
      cases hdone
      exact .version hrole hneg (by omega) hbuf hhdr hversion hreply

/-- One pass of `ngx_nsoc_do_handshake_process`. -/
inductive PassStep (N : NoiseC S) (w : Endpoint S) :
    ControlFlow (Endpoint S) (Int × Endpoint S) → Prop where
  | none_done {r : Int × Endpoint S} (hphase : w.nc.handshake_phase = .none_phase)
      (hnone : NoneStep N w (.done r)) : PassStep N w (.done r)
  | none_process {v : Endpoint S} {flow : ControlFlow (Endpoint S) (Int × Endpoint S)}
      (hphase : w.nc.handshake_phase = .none_phase) (hnone : NoneStep N w (.cont v))
      (hprocess : ProcessStep N v flow) : PassStep N w flow
  | process {flow : ControlFlow (Endpoint S) (Int × Endpoint S)}
      (hphase : w.nc.handshake_phase = .process_phase) (hprocess : ProcessStep N w flow) :
      PassStep N w flow
  | spin (hphase : w.nc.handshake_phase = .end_phase) : PassStep N w (.cont w)

theorem do_handshake_process_body_cases {N : NoiseC S} {fuel : Nat} {w : Endpoint S}
    {flow : ControlFlow (Endpoint S) (Int × Endpoint S)}
    (h : w.do_handshake_process_body N fuel = ok flow) : PassStep N w flow := by
  unfold do_handshake_process_body at h
  rcases hphase : w.nc.handshake_phase with _ | _ | _
  · simp only [hphase, bind_eq_ok_iff] at h
    obtain ⟨step, hnone, hrest⟩ := h
    cases step with
    | done r =>
      cases hrest
      exact .none_done hphase (none_phase_cases hnone)
    | cont v => exact .none_process hphase (none_phase_cases hnone) (process_phase_cases hrest)
  · rw [hphase] at h
    exact .process hphase (process_phase_cases h)
  · rw [hphase] at h
    cases h
    exact .spin hphase

/-- The state a pass leaves behind. -/
def flowState {S : Type} : ControlFlow (Endpoint S) (Int × Endpoint S) → Endpoint S
  | .cont w => w
  | .done r => r.2

/-- A pass only adds to what has been observed. -/
def Extends (w : Endpoint S) (flow : ControlFlow (Endpoint S) (Int × Endpoint S)) : Prop :=
  ∃ obs, (flowState flow).trace = obs ++ w.trace

theorem Reads.extends {u v w : Endpoint S} (h : Reads u v) (more : List Obs)
    (hmore : w.trace = more ++ v.trace) : ∃ obs, w.trace = obs ++ u.trace := by
  obtain ⟨obs, htrace, -⟩ := h.trace
  exact ⟨more ++ obs, by simp [hmore, htrace]⟩

theorem WriteOutcome.extends {N : NoiseC S} {w w' : Endpoint S} {n : Int} {b : Option Buf}
    (h : WriteOutcome N w w' n b) : ∃ obs, w'.trace = obs ++ w.trace := by
  cases h with
  | refused _ htrace => exact ⟨[], htrace⟩
  | error_message _ _ _ htrace => exact ⟨[], htrace⟩
  | noise_error _ _ _ _ _ htrace => exact ⟨[_], htrace⟩
  | written _ _ _ _ _ _ _ htrace => exact ⟨[_], htrace⟩

theorem SendOutcome.trace {N : NoiseC S} {b : Buf} {w : Endpoint S}
    {flow : ControlFlow (Endpoint S) (Int × Endpoint S)} (h : SendOutcome N b w flow) :
    (flowState flow).trace = w.trace := by
  cases h with
  | refused hframe _ | blocked hframe _ _ _ _ | wait hframe _ _ _ _ _ | go_on hframe _ _ _ _ =>
    exact hframe.trace

theorem MessageSteps.extends {N : NoiseC S} {w : Endpoint S} {r : Int × Endpoint S}
    (h : MessageSteps N w r) : ∃ obs, r.2.trace = obs ++ w.trace := by
  cases h with
  | gate_ret n v hgate hr =>
    rw [hr]
    exact hgate.reads.extends [] rfl
  | gate_stop n v hgate hn hr =>
    rw [hr]
    exact hgate.reads.extends [] rfl
  | msg_stop n v hgate hn hmsg hr =>
    exact (hgate.reads.trans ((reads_setBuf _ _).trans hmsg.frame.reads)).extends [] rfl
  | rejected n v q b code noise hgate hn hmsg hq hbuf hcall hcode hr =>
    rw [hr]
    exact (hgate.reads.trans ((reads_setBuf _ _).trans hmsg.frame.reads)).extends [_] rfl
  | accepted n v q b noise hgate hn hmsg hq hbuf hcall hr =>
    rw [hr]
    exact (hgate.reads.trans ((reads_setBuf _ _).trans hmsg.frame.reads)).extends [_] rfl

theorem split_action_trace (N : NoiseC S) (w : Endpoint S) :
    (w.split_action N).2.trace = w.trace := by
  unfold split_action
  dsimp only
  split_ifs <;> rfl

theorem ProcessStep.extends {N : NoiseC S} {w : Endpoint S}
    {flow : ControlFlow (Endpoint S) (Int × Endpoint S)} (h : ProcessStep N w flow) :
    w.Extends flow := by
  cases h with
  | write_failed _ _ hmsg _ => exact (write_message_cases hmsg).2.extends
  | write_new _ _ hmsg =>
    obtain ⟨obs, htrace⟩ := (write_message_cases hmsg).2.extends
    exact ⟨obs, (send_action_cases N _ _).trace.trans htrace⟩
  | write_old _ _ _ => exact ⟨[], (send_action_cases N _ _).trace⟩
  | read_stopped _ hsteps _ => exact hsteps.extends
  | read_done _ hsteps _ => exact hsteps.extends
  | split _ => exact ⟨[], split_action_trace N w⟩
  | failed _ => exact ⟨[], rfl⟩

theorem StartOutcome.extends {N : NoiseC S} {w : Endpoint S}
    {flow : ControlFlow (Endpoint S) (Int × Endpoint S)} (h : StartOutcome N w flow) :
    w.Extends flow := by
  cases h with
  | failed hframe _ =>
    obtain ⟨obs, htrace, -⟩ := hframe.trace
    exact ⟨obs, htrace⟩
  | started hframe hinit =>
    obtain ⟨obs, htrace, -⟩ := hframe.trace
    exact ⟨obs, htrace⟩

theorem NoneStep.extends {N : NoiseC S} {w : Endpoint S}
    {flow : ControlFlow (Endpoint S) (Int × Endpoint S)} (h : NoneStep N w flow) :
    w.Extends flow := by
  cases h with
  | client _ hstart => exact hstart.extends
  | neg_stopped _ hneg _ => exact hneg.frame.reads.extends [] rfl
  | version _ hneg _ _ _ _ hreply =>
    exact hneg.frame.reads.extends [] (version_error_cases hreply).1.trace
  | header _ hneg _ _ _ _ hstart =>
    obtain ⟨obs, htrace⟩ := hstart.extends
    exact hneg.frame.reads.extends _ htrace

theorem PassStep.extends {N : NoiseC S} {w : Endpoint S}
    {flow : ControlFlow (Endpoint S) (Int × Endpoint S)} (h : PassStep N w flow) :
    w.Extends flow := by
  cases h with
  | none_done _ hnone => exact hnone.extends
  | none_process _ hnone hprocess =>
    obtain ⟨obs, htrace⟩ := hnone.extends
    obtain ⟨obs', htrace'⟩ := hprocess.extends
    exact ⟨obs' ++ obs, by rw [htrace', List.append_assoc]; exact congrArg _ htrace⟩
  | process _ hprocess => exact hprocess.extends
  | spin _ => exact ⟨[], rfl⟩

end Endpoint

end ngx_nsoc
