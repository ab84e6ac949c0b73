import NoiseSocket.Handler.Outcome
import NoiseSocket.NoiseC.Pattern
import NoiseSocket.Session

open Exec Exec.Result

namespace ngx_nsoc

open ngx_noise_protocol

variable {S : Type}

namespace Session

/-- The handshake of the session has completed. -/
def Handshaked (s : Session S) : Prop :=
  ∃ nc, s.server_noise_connection = some nc ∧ nc.handshaked = true

/-- A noise connection of the session belongs to the connection of the session. -/
def Bound (s : Session S) : Prop :=
  ∀ nc, s.server_noise_connection = some nc → (s.endpoint nc).Bound

/-- The events of a session with a noise connection go to the handshake. -/
def Hooked (s : Session S) : Prop :=
  ∀ nc, s.server_noise_connection = some nc → (s.endpoint nc).IsHooked

/-- What has been observed since `s`, and whether noise-c has refused to write a
message since then. -/
def Since (failed : Bool) (s s' : Session S) : Prop :=
  ∃ obs, s'.trace = obs ++ s.trace ∧ obs.any Obs.isWriteError = failed

/-- What the handler of the phase leaves of a session. -/
structure Frame (s s' : Session S) : Prop where
  noise_on : s'.noise_on = s.noise_on
  phase : s'.phase = s.phase
  closed : s'.closed = s.closed
  bound : s'.Bound

/-- How the handler of the phase can end. -/
inductive HandlerResult (s : Session S) : Int × Session S → Prop where
  | completed {s' : Session S} (hframe : Frame s s') (hdone : s'.Handshaked)
      (hsince : Since false s s') : HandlerResult s (NGX_OK, s')
  | suspended {s' : Session S} (hframe : Frame s s') (hhooked : s'.Hooked)
      (hsince : Since false s s') : HandlerResult s (NGX_AGAIN, s')
  | failed {s' : Session S} (hframe : Frame s s') (hsince : Since false s s') :
      HandlerResult s (NGX_ERROR, s')
  | refused {s' : Session S} (hframe : Frame s s') (hnot : ¬ s'.Handshaked)
      (hsince : Since true s s') : HandlerResult s (NGX_OK, s')

theorem bound_of_none {s : Session S} (h : s.server_noise_connection = none) : s.Bound := by
  intro nc hnc
  simp [h] at hnc

theorem bound_put {s : Session S} {w : Endpoint S} (h : w.Bound) : (s.put w).Bound := by
  intro nc hnc
  obtain rfl : w.nc = nc := by simpa [put] using hnc
  exact h

theorem hooked_put {s : Session S} {w : Endpoint S} (h : w.IsHooked) : (s.put w).Hooked := by
  intro nc hnc
  obtain rfl : w.nc = nc := by simpa [put] using hnc
  exact ⟨h.read, h.write⟩

theorem bound_setHandler {s : Session S} (handler : ConnectionHandler) (h : s.Bound) :
    (s.setHandler handler).Bound := by
  intro nc hnc
  obtain ⟨nc', hnc', rfl⟩ := Option.map_eq_some_iff.mp hnc
  exact h nc' hnc'

theorem hooked_setHandler {s : Session S} (handler : ConnectionHandler) (h : s.Hooked) :
    (s.setHandler handler).Hooked := by
  intro nc hnc
  obtain ⟨nc', hnc', rfl⟩ := Option.map_eq_some_iff.mp hnc
  exact ⟨(h nc' hnc').read, (h nc' hnc').write⟩

/-- What `ngx_nsoc_create_connection` leaves: no noise connection, or a new one. -/
theorem create_connection_cases {s : Session S} (hnone : s.server_noise_connection = none) :
    (s.create_connection.1 = NGX_ERROR ∧ s.create_connection.2.server_noise_connection = none ∨
      s.create_connection.1 = NGX_OK ∧ ∃ nc,
        s.create_connection.2.server_noise_connection = some nc ∧
        (s.create_connection.2.endpoint nc).Starting ∧ (s.create_connection.2.endpoint nc).Bound) ∧
    s.create_connection.2.noise_on = s.noise_on ∧ s.create_connection.2.phase = s.phase ∧
    s.create_connection.2.closed = s.closed ∧ s.create_connection.2.trace = s.trace := by
  unfold create_connection
  dsimp only
  by_cases hfirst : s.ngx_alloc.1 = true
  swap
  · rw [if_pos hfirst]
    exact ⟨.inl ⟨rfl, hnone⟩, rfl, rfl, rfl, rfl⟩
  rw [if_neg (not_not.mpr hfirst)]
  by_cases hsecond : s.ngx_alloc.2.ngx_alloc.1 = true
  swap
  · rw [if_pos hsecond]
    exact ⟨.inl ⟨rfl, hnone⟩, rfl, rfl, rfl, rfl⟩
  rw [if_neg (not_not.mpr hsecond)]
  exact ⟨.inr ⟨rfl, _, rfl, ⟨rfl, rfl, rfl, rfl⟩, rfl⟩, rfl, rfl, rfl, rfl⟩

/-- The handshake of a session with a noise connection of its own. -/
theorem handshake_eq {N : NoiseC S} {fuel : Nat} {s : Session S} {nc : NoiseConnection}
    (hnc : s.server_noise_connection = some nc) (hbound : (s.endpoint nc).Bound) :
    s.handshake N fuel =
      (s.endpoint nc).do_handshake_process N fuel >>= fun r => ok (r.1, s.put r.2) := by
  have hid : nc.connection = s.c.id := hbound
  simp [handshake, hnc, hid]

/-- `ngx_nsoc_noiseserver_init_connection`: a code of noise-c counts as success. -/
theorem noiseserver_init_connection_result {N : NoiseC S} {fuel : Nat} {s : Session S}
    {r : Int × Session S} (hnone : s.server_noise_connection = none)
    (h : s.noiseserver_init_connection N fuel = ok r) : HandlerResult s r := by
  obtain ⟨hcreate, hon, hphase, hclosed, htrace⟩ := create_connection_cases hnone
  unfold noiseserver_init_connection at h
  dsimp only at h
  obtain ⟨hcode, hnc⟩ | ⟨hcode, nc, hnc, hstart, hbound⟩ := hcreate
  · rw [if_pos hcode] at h
    cases h
    exact .failed ⟨hon, hphase, hclosed, bound_of_none hnc⟩ ⟨[], htrace, rfl⟩
  rw [if_neg (by simp [hcode]), handshake_eq hnc hbound, bind_eq_ok_iff] at h
  obtain ⟨q, hcall, hrest⟩ := h
  rw [bind_eq_ok_iff] at hcall
  obtain ⟨q', hprocess, hq⟩ := hcall
  cases hq
  have hsince : ∀ {failed : Bool} {w : Endpoint S},
      (s.create_connection.2.endpoint nc).Since failed w →
      Since failed s (s.create_connection.2.put w) := by
    rintro failed w ⟨obs, hobs, hany⟩
    exact ⟨obs, by rw [← htrace]; exact hobs, hany⟩
  have hframe : ∀ {w : Endpoint S}, w.Bound → Frame s (s.create_connection.2.put w) :=
    fun hw => ⟨hon, hphase, hclosed, bound_put hw⟩
  cases hresult : Endpoint.do_handshake_process_result hstart hprocess with
  | @completed w hs hdone hb =>
    rw [if_neg (by simp), if_neg (by simp)] at hrest
    cases hrest
    exact .completed (hframe (hb hbound)) ⟨w.nc, rfl, hdone⟩ (hsince hs)
  | @suspended w hs hhooked hb =>
    rw [if_neg (by simp), if_pos rfl] at hrest
    cases hrest
    obtain ⟨hon', hphase', hclosed', hbound'⟩ := hframe (hb hbound)
    exact .suspended ⟨hon', hphase', hclosed', bound_setHandler _ hbound'⟩
      (hooked_setHandler _ (hooked_put hhooked)) (hsince hs)
  | @failed w hs hb =>
    rw [if_pos rfl] at hrest
    cases hrest
    exact .failed (hframe (hb hbound)) (hsince hs)
  | @refused w code hne hs hnot hb =>
    rw [if_neg (by simp only [NGX_ERROR]; omega), if_neg (by simp only [NGX_AGAIN]; omega)] at hrest
    cases hrest
    refine .refused (hframe (hb hbound)) ?_ (hsince hs)
    rintro ⟨nc', hnc', hdone⟩
    obtain rfl : w.nc = nc' := by simpa [put] using hnc'
    simp [hnot] at hdone

/-- At a call of the handler: a session with a noise connection has completed the
handshake. -/
structure Calls (s : Session S) : Prop where
  noise_on : s.noise_on = true
  bound : s.Bound
  handshaked : ∀ nc, s.server_noise_connection = some nc → nc.handshaked = true

theorem noiseserver_handler_result {N : NoiseC S} {conf : KeyConf} {alloc : KeyAlloc} {fuel : Nat}
    {s : Session S} {r : Int × Session S} (hs : s.Calls)
    (h : s.noiseserver_handler N conf alloc fuel = ok r) : HandlerResult s r := by
  unfold noiseserver_handler at h
  rw [if_neg (by simp [hs.noise_on]), bind_eq_ok_iff] at h
  obtain ⟨⟨rc, ctx, mem⟩, -, hrest⟩ := h
  dsimp only at hrest
  by_cases hrc : rc = NGX_OK
  swap
  · rw [if_pos hrc] at hrest
    cases hrest
    exact .failed ⟨rfl, rfl, rfl, hs.bound⟩ ⟨[], rfl, rfl⟩
  rw [if_neg (not_not.mpr hrc)] at hrest
  cases hnc : s.server_noise_connection with
  | some nc =>
    rw [if_neg (by simp [hnc])] at hrest
    cases hrest
    exact .completed ⟨rfl, rfl, rfl, hs.bound⟩ ⟨nc, hnc, hs.handshaked nc hnc⟩ ⟨[], rfl, rfl⟩
  | none =>
    rw [if_pos hnc, bind_eq_ok_iff] at hrest
    obtain ⟨q, hinit, hq⟩ := hrest
    have hresult := noiseserver_init_connection_result
      (s := { s with ctx, mem }) hnc hinit
    obtain rfl : q = r := by
      split_ifs at hq with hcode
      · exact ok.inj hq
      · rw [← ok.inj hq, ← not_not.mp hcode]
    cases hresult with
    | completed hframe hdone hsince =>
      exact .completed ⟨hframe.noise_on, hframe.phase, hframe.closed, hframe.bound⟩ hdone hsince
    | suspended hframe hhooked hsince =>
      exact .suspended ⟨hframe.noise_on, hframe.phase, hframe.closed, hframe.bound⟩ hhooked hsince
    | failed hframe hsince =>
      exact .failed ⟨hframe.noise_on, hframe.phase, hframe.closed, hframe.bound⟩ hsince
    | refused hframe hnot hsince =>
      exact .refused ⟨hframe.noise_on, hframe.phase, hframe.closed, hframe.bound⟩ hnot hsince

/-- Between two events: the session is behind the phase or closed, or the events of
its noise connection go to the handshake. -/
structure Waits (s : Session S) : Prop where
  noise_on : s.noise_on = true
  bound : s.Bound
  attached : s.phase = .behind ∨ s.closed = true ∨ s.Hooked

/-- Closing closes a session with a noise connection; one without stays as it is. -/
theorem waits_close_connection {s : Session S} (hon : s.noise_on = true) (hbound : s.Bound) :
    s.close_connection.Waits := by
  unfold close_connection
  rw [if_pos hon]
  cases hnc : s.server_noise_connection with
  | none =>
    refine ⟨hon, hbound, .inr (.inr ?_)⟩
    intro nc hsome
    simp [hnc] at hsome
  | some nc =>
    dsimp only
    have hid : nc.connection = s.c.id := hbound nc hnc
    rw [if_pos hid]
    refine ⟨hon, ?_, .inr (.inl rfl)⟩
    intro nc' hnc'
    exact hbound nc' (hnc.trans hnc')

/-- What an event handler may leave behind. -/
def EventResult.Fine : EventResult S → Prop
  | .returned s => s.Waits
  | .run_phases s => s.Calls ∧ s.phase = .protect

theorem call_handler_fine {s : Session S} {e : EventResult S} (hon : s.noise_on = true)
    (hbound : s.Bound) (hhooked : s.Hooked) (hphase : s.phase = .protect)
    (h : s.call_handler = ok e) : e.Fine := by
  unfold call_handler at h
  cases hnc : s.server_noise_connection with
  | none => simp [hnc] at h
  | some nc =>
    simp only [hnc] at h
    split at h
    swap
    · cases h
    obtain rfl := ok.inj h
    unfold noiseserver_handshake_handler
    by_cases hdone : nc.handshaked = true
    swap
    · rw [if_pos hdone]
      exact waits_close_connection hon hbound
    rw [if_neg (not_not.mpr hdone)]
    dsimp only
    split_ifs with hevent
    · refine ⟨⟨hon, hbound, ?_⟩, hphase⟩
      intro nc' hnc'
      obtain rfl : nc = nc' := by simpa [hnc] using hnc'
      exact hdone
    · refine ⟨hon, hbound, .inr (.inr ?_)⟩
      intro nc' hnc'
      exact ⟨(hhooked nc' hnc').read, (hhooked nc' hnc').write⟩

theorem handshake_handler_fine {N : NoiseC S} {fuel : Nat} {timedout : Bool} {s : Session S}
    {e : EventResult S} (hs : s.Waits) (hopen : s.closed = false) (hphase : s.phase = .protect)
    (h : s.handshake_handler N fuel timedout = ok e) : e.Fine := by
  have hhooked : s.Hooked := by
    obtain hbehind | hclosed | hhooked := hs.attached
    · rw [hphase] at hbehind
      cases hbehind
    · rw [hopen] at hclosed
      cases hclosed
    · exact hhooked
  unfold handshake_handler at h
  cases hnc : s.server_noise_connection with
  | none =>
    simp only [hnc] at h
    obtain rfl := ok.inj h
    exact hs
  | some nc =>
    have hbound := hs.bound nc hnc
    have hid : nc.connection = s.c.id := hbound
    simp only [hnc, hid, ne_eq, not_true, if_false] at h
    split_ifs at h
    · exact call_handler_fine hs.noise_on hs.bound hhooked hphase h
    rw [handshake_eq hnc hbound, bind_eq_ok_iff] at h
    obtain ⟨q, hcall, hrest⟩ := h
    rw [bind_eq_ok_iff] at hcall
    obtain ⟨r, hprocess, hq⟩ := hcall
    cases hq
    have hattached := Endpoint.do_handshake_process_attached ⟨hhooked nc hnc, hbound⟩ hprocess
    split_ifs at hrest
    · obtain rfl := ok.inj hrest
      exact ⟨hs.noise_on, bound_put hattached.bound, .inr (.inr (hooked_put hattached.hooked))⟩
    · exact call_handler_fine (s := s.put r.2) hs.noise_on (bound_put hattached.bound)
        (hooked_put hattached.hooked) hphase hrest

theorem HandlerResult.waits {s s' : Session S} {rc : Int} (h : HandlerResult s (rc, s'))
    (hs : s.noise_on = true) : (s'.generic_phase rc).Waits := by
  unfold generic_phase
  generalize hr : (rc, s') = r at h
  cases h with
  | completed hframe _ _ | refused hframe _ _ =>
    cases hr
    rw [if_pos (.inl rfl)]
    exact ⟨hframe.noise_on.trans hs, hframe.bound, .inl rfl⟩
  | suspended hframe hhooked _ =>
    cases hr
    rw [if_neg (by simp), if_pos (.inl rfl)]
    exact ⟨hframe.noise_on.trans hs, hframe.bound, .inr (.inr hhooked)⟩
  | failed hframe _ =>
    cases hr
    rw [if_neg (by simp), if_neg (by simp)]
    exact waits_close_connection (hframe.noise_on.trans hs) hframe.bound

/-- The invariant of a session, at either point. -/
def Fine : Point → Session S → Prop
  | .waiting, s => s.Waits
  | .calling, s => s.Calls ∧ s.phase = .protect

theorem Reachable.fine {N : NoiseC S} {conf : KeyConf} {point : Point} {s : Session S}
    (h : Reachable N conf point s) : Fine point s := by
  induction h with
  | accepted hs =>
    refine ⟨hs.noise_on, bound_of_none hs.server_noise_connection, .inr (.inr ?_)⟩
    intro nc hnc
    simp [hs.server_noise_connection] at hnc
  | disturbed _ read write ctx prologue mem env ih =>
    obtain ⟨hon, hbound, hattached⟩ := ih
    refine ⟨hon, hbound, hattached.imp_right (Or.imp_right fun hhooked => ?_)⟩
    intro nc hnc
    exact ⟨(hhooked nc hnc).read, (hhooked nc hnc).write⟩
  | @session_handler s _ hopen hphase hhandler ih =>
    obtain ⟨hon, hbound, hattached⟩ := ih
    refine ⟨⟨hon, hbound, ?_⟩, hphase⟩
    intro nc hnc
    obtain hbehind | hclosed | hhooked := hattached
    · simp [hphase] at hbehind
    · simp [hopen] at hclosed
    · -- a session with a noise connection is not waiting with its first handler
      have hread : s.c.read.handler = .handshake_handler := (hhooked nc hnc).read
      simp [hhandler] at hread
  | handshake_returned _ hopen hphase _ hevent ih =>
    exact handshake_handler_fine ih hopen hphase hevent
  | handshake_run _ hopen hphase _ hevent ih =>
    exact handshake_handler_fine ih hopen hphase hevent
  | handled _ hcall ih => exact (noiseserver_handler_result ih.1 hcall).waits ih.1.noise_on

/-- No call of `noise_handshakestate_write_message` has failed from `s` to `s'`. -/
def WritesAccepted (s s' : Session S) : Prop :=
  ∀ obs, s'.trace = obs ++ s.trace → ∀ num code, .write_message num code ∈ obs →
    code = NOISE_ERROR_NONE

theorem writesAccepted_iff {failed : Bool} {s s' : Session S} (h : Since failed s s') :
    WritesAccepted s s' ↔ failed = false := by
  obtain ⟨obs, htrace, rfl⟩ := h
  constructor
  · intro haccepted
    rw [List.any_eq_false]
    intro o ho
    cases o with
    | write_message num code =>
      have hcode := haccepted obs htrace num code ho
      simp [Obs.isWriteError, hcode]
    | _ => simp [Obs.isWriteError]
  · intro hany obs' htrace' num code ho
    obtain rfl : obs' = obs := List.append_cancel_right (htrace'.symm.trans htrace)
    have hcode := List.any_eq_false.mp hany _ ho
    simpa [Obs.isWriteError] using hcode

/-- In every run of a session: the handler of the phase lets a session through only
with a completed handshake, unless noise-c refuses to write a message in the very
call, which then counts as success. -/
theorem handler_ok_iff {N : NoiseC S} {conf : KeyConf} {s s' : Session S} {alloc : KeyAlloc}
    {fuel : Nat} {rc : Int} (hs : Reachable N conf .calling s)
    (hcall : s.noiseserver_handler N conf alloc fuel = ok (rc, s')) :
    (rc = NGX_OK → s'.Handshaked) ↔ WritesAccepted s s' := by
  have hresult := noiseserver_handler_result hs.fine.1 hcall
  generalize hr : (rc, s') = r at hresult
  cases hresult with
  | completed _ hdone hsince =>
    cases hr
    simp [writesAccepted_iff hsince, hdone]
  | suspended _ _ hsince | failed _ hsince =>
    cases hr
    simp [writesAccepted_iff hsince]
  | refused _ hnot hsince =>
    cases hr
    simp [writesAccepted_iff hsince, hnot]

/-- A session of the pattern XX at the phase, whose keys are loaded and whose
connection will deliver `items`. -/
def pattern_session (items : List Net.Item) : Session Pattern where
  noise_on := true
  phase := .protect
  closed := false
  c := { Connection.fresh 0 with read := { Event.fresh with handler := .session_handler } }
  server_noise_connection := none
  ctx := ⟨some ⟨0x1000, 1⟩, none⟩
  buffer_size := NOISE_PROTOCOL_PAYLOAD_SIZE
  noise := ⟨.responder, 0⟩
  prologue := server_prologue
  mem := ⟨fun _ => 0, []⟩
  env := .quiet items false
  trace := []

/-- The first and the third message of a client, each in one segment. -/
def first_message : Net.Item :=
  .data 0 ([6] ++ proxy_prologue.header.bytes ++ [0, 32] ++ Pattern.message 0)

def third_message : Net.Item := .data 0 ([0, 0, 64] ++ Pattern.message 2)

/-- noise-c for the pattern XX that cannot write. -/
def pattern_mute : NoiseC Pattern :=
  { pattern_xx with handshakestate_write_message := fun p => ((NOISE_ERROR_INVALID_STATE, []), p) }

/-- The key files and addresses of `pattern_session`. -/
def pattern_conf : KeyConf := ⟨some (some (List.replicate 32 7)), none⟩

def pattern_alloc : KeyAlloc := ⟨⟨0x1000, 0x1010⟩, ⟨0x2000, 0x2010⟩⟩

theorem reachable_pattern_session (N : NoiseC Pattern) (items : List Net.Item) :
    Reachable N pattern_conf .calling (pattern_session items) :=
  .session_handler (.accepted ⟨rfl, rfl, rfl⟩) rfl rfl rfl

/-- A whole handshake: the session suspends behind the first message, and goes on with
the third one. -/
theorem handshaked_of_whole_handshake :
    ∃ s s' : Session Pattern, Reachable pattern_xx pattern_conf .calling s ∧
      s.noiseserver_handler pattern_xx pattern_conf pattern_alloc 8 = ok (NGX_OK, s') ∧
      WritesAccepted s s' ∧ s'.Handshaked := by
  have hfirst : ∃ s, (pattern_session [first_message]).noiseserver_handler pattern_xx pattern_conf
      pattern_alloc 8 = ok (NGX_AGAIN, s) ∧
      s.closed = false ∧ s.phase = .protect ∧ s.c.read.handler = .handshake_handler ∧
      ∃ s', (s.disturb id id s.ctx s.prologue s.mem (.quiet [third_message] false)).handshake_handler
          pattern_xx 8 false = ok (.run_phases s') ∧
        ∃ s'', s'.noiseserver_handler pattern_xx pattern_conf pattern_alloc 8 = ok (NGX_OK, s'') ∧
          s''.trace = s'.trace :=
    ⟨_, rfl, rfl, rfl, rfl, _, rfl, _, rfl, rfl⟩
  obtain ⟨s, hcall, hopen, hphase, hhandler, s', hevent, s'', hcall', htrace⟩ := hfirst
  have hreach : Reachable pattern_xx pattern_conf .calling s' :=
    .handshake_run (.disturbed (.handled (reachable_pattern_session pattern_xx _) hcall) id id s.ctx
      s.prologue s.mem (.quiet [third_message] false)) hopen hphase (.inl hhandler) hevent
  have haccepted : WritesAccepted s' s'' := (writesAccepted_iff ⟨[], htrace, rfl⟩).mpr rfl
  exact ⟨s', s'', hreach, hcall', haccepted, (handler_ok_iff hreach hcall').mpr haccepted rfl⟩

/-- noise-c cannot write the second message, and the session gets through. -/
theorem not_handshaked_of_mute :
    ¬ ∀ (N : NoiseC Pattern) (conf : KeyConf) (s s' : Session Pattern) (alloc : KeyAlloc) (fuel : Nat),
      Reachable N conf .calling s → s.noiseserver_handler N conf alloc fuel = ok (NGX_OK, s') →
      s'.Handshaked := by
  intro h
  have hcall : ∃ s, (pattern_session [first_message]).noiseserver_handler pattern_mute pattern_conf
      pattern_alloc 8 = ok (NGX_OK, s) ∧
      ∃ nc, s.server_noise_connection = some nc ∧ nc.handshaked = false :=
    ⟨_, rfl, _, rfl, rfl⟩
  obtain ⟨s, hcall, nc, hnc, hnot⟩ := hcall
  obtain ⟨nc', hnc', hdone⟩ := h _ _ _ _ _ _ (reachable_pattern_session pattern_mute _) hcall
  obtain rfl : nc = nc' := by simpa [hnc] using hnc'
  simp [hnot] at hdone

end Session

end ngx_nsoc
