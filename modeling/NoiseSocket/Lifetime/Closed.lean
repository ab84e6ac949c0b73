import NoiseSocket.Lifetime
import NoiseSocket.Session.Protect

open Exec Exec.Result

namespace ngx_nsoc

open ngx_noise_protocol

variable {S : Type}

/-- `ngx_nsoc_close_connection` closes the connection: noise is off, or its noise connection is
there. -/
def FinalizeCall.Closes (call : FinalizeCall) : Prop :=
  call.noise_on = true → call.server_noise_connection ≠ none

instance (call : FinalizeCall) : Decidable call.Closes :=
  inferInstanceAs (Decidable (_ → _))

namespace Lifetime

/-- The phases behind `NGX_NSOC_PROTECT_PHASE`. -/
def Behind : Phase → Prop
  | .preread | .content | .log => True
  | _ => False

/-- What holds of a session at any time: it is closed once at most, by a call that could close it,
and a closed session does nothing any more. -/
structure Sound (l : Lifetime S) : Prop where
  bound : l.session.Bound
  attached : Behind l.stage → l.session.noise_on = true → l.session.server_noise_connection ≠ none
  placed : l.proxy ≠ none → l.stage = .content ∧ l.running = false
  closes : l.closes = l.finalized.countP fun call => call.Closes
  destroys : l.destroys = l.closes
  opened : l.closes = 0 ↔ l.session.closed = false
  once : l.closes ≤ 1
  stopped : l.closes ≠ 0 → l.running = false
  ended : l.closes ≠ 0 → ∀ proxy, l.proxy = some proxy → proxy.1 = .ended

/-- A session that waits for its handshake has its events with the handshake. -/
structure Fine (l : Lifetime S) : Prop extends Sound l where
  hooked : l.stage = .protect → l.running = false → l.closes = 0 → l.session.Hooked

/-- A session whose noise connection is missing has no proxy either. -/
theorem Sound.noise_connection {l : Lifetime S} (h : Sound l) (hon : l.session.noise_on = true) :
    l.noise_connection = none ↔ l.session.server_noise_connection = none := by
  unfold Lifetime.noise_connection
  cases hnc : l.session.server_noise_connection with
  | some nc =>
    have hid : nc.connection = l.session.c.id := h.bound nc hnc
    simp [hid]
  | none =>
    have hproxy : l.proxy = none := by
      by_contra hsome
      refine h.attached ?_ hon hnc
      rw [(h.placed hsome).1]
      trivial
    simp [client_noise_connection, hproxy]

theorem finalize_session_of_closes {l : Lifetime S} (h : Sound l)
    (hcloses : FinalizeCall.Closes ⟨l.session.noise_on, l.session.server_noise_connection⟩) :
    l.finalize_session = { l with
      finalized := ⟨l.session.noise_on, l.session.server_noise_connection⟩ :: l.finalized
      session := { l.session with closed := true }
      closes := l.closes + 1
      destroys := l.destroys + 1 } := by
  unfold finalize_session close_connection
  by_cases hon : l.session.noise_on = true
  · have hsome : l.noise_connection ≠ none := mt (h.noise_connection hon).mp (hcloses hon)
    obtain ⟨nc, hnc⟩ := Option.ne_none_iff_exists'.mp hsome
    rw [if_pos hon]
    simp only [Lifetime.noise_connection, client_noise_connection] at hnc ⊢
    rw [hnc]
    rfl
  · rw [if_neg hon]
    rfl

theorem finalize_session_of_not_closes {l : Lifetime S} (h : Sound l)
    (hcloses : ¬ FinalizeCall.Closes ⟨l.session.noise_on, l.session.server_noise_connection⟩) :
    l.finalize_session = { l with
      finalized := ⟨l.session.noise_on, l.session.server_noise_connection⟩ :: l.finalized } := by
  obtain ⟨hon, hnone⟩ := Classical.not_imp.mp hcloses
  have hnc := (h.noise_connection hon).mpr (not_not.mp hnone)
  unfold finalize_session close_connection
  rw [if_pos hon]
  simp only [Lifetime.noise_connection, client_noise_connection] at hnc ⊢
  rw [hnc]

/-- A call of `ngx_nsoc_finalize_session` on an open session, behind which nothing runs. -/
theorem Sound.finalize_session {l : Lifetime S} (h : Sound l) (hopen : l.closes = 0)
    (hruns : l.running = false) (hended : ∀ proxy, l.proxy = some proxy → proxy.1 = .ended) :
    Fine l.finalize_session := by
  by_cases hcloses : FinalizeCall.Closes ⟨l.session.noise_on, l.session.server_noise_connection⟩
  · rw [finalize_session_of_closes h hcloses]
    have hcount : l.closes + 1 = (⟨l.session.noise_on, l.session.server_noise_connection⟩ ::
        l.finalized).countP fun call => call.Closes := by
      rw [List.countP_cons_of_pos (by simpa using hcloses), h.closes]
    refine ⟨⟨h.bound, h.attached, h.placed, hcount, congrArg (· + 1) h.destroys, ?_, ?_, fun _ => hruns,
      fun _ => hended⟩, fun _ _ hzero => absurd hzero (Nat.succ_ne_zero _)⟩
    · simp
    · simp [hopen]
  · rw [finalize_session_of_not_closes h hcloses]
    have hcount : l.closes = (⟨l.session.noise_on, l.session.server_noise_connection⟩ ::
        l.finalized).countP fun call => call.Closes := by
      rw [List.countP_cons_of_neg (by simpa using hcloses), h.closes]
    refine ⟨⟨h.bound, h.attached, h.placed, hcount, h.destroys, h.opened, h.once, h.stopped,
      h.ended⟩, fun _ _ _ nc hnc => ?_⟩
    obtain ⟨-, hnone⟩ := Classical.not_imp.mp hcloses
    exact absurd (hnc.symm.trans (not_not.mp hnone)) (by simp)

/-- What the code of a phase may do to an open session that it runs for. -/
theorem Sound.congr {l l' : Lifetime S} (h : Sound l) (hruns : l.closes = 0)
    (hbound : l'.session.Bound)
    (hattached : Behind l'.stage → l'.session.noise_on = true →
      l'.session.server_noise_connection ≠ none)
    (hplaced : l'.proxy ≠ none → l'.stage = .content ∧ l'.running = false) (hclosed : l'.session.closed = l.session.closed)
    (hfinalized : l'.finalized = l.finalized) (hcloses : l'.closes = l.closes)
    (hdestroys : l'.destroys = l.destroys) : Sound l' := by
  have hzero : l'.closes = 0 := hcloses.trans hruns
  refine ⟨hbound, hattached, hplaced, ?_, ?_, ?_, by omega, fun hne => absurd hzero hne,
    fun hne => absurd hzero hne⟩
  · rw [hcloses, hfinalized]
    exact h.closes
  · rw [hcloses, hdestroys]
    exact h.destroys
  · rw [hcloses, hclosed]
    exact h.opened

/-- The checkers of the phases, behind a handler that has let a noise connection be created
where it lets the session go on. -/
theorem Sound.phase_end {l : Lifetime S} (h : Sound l) (hopen : l.closes = 0) (hproxy : l.proxy = none)
    {rc : Int}
    (hok : rc = NGX_OK → Behind l.stage.next → l.session.noise_on = true →
      l.session.server_noise_connection ≠ none)
    (hhooked : rc = NGX_AGAIN ∨ rc = NGX_DONE → l.stage = .protect → l.session.Hooked)
    (hruns : l.running = true) : Fine (l.phase_end rc) := by
  have hsound : Sound { l with running := false } :=
    h.congr hopen h.bound h.attached (fun hne => absurd hproxy hne) rfl rfl rfl rfl
  unfold Lifetime.phase_end
  split_ifs with hrc hrc' hrc''
  · refine ⟨h.congr hopen h.bound (hok hrc) (fun hne => absurd hproxy hne) rfl rfl rfl rfl, ?_⟩
    intro _ hstops
    rw [hruns] at hstops
    cases hstops
  · refine ⟨h, fun _ hstops => ?_⟩
    rw [hruns] at hstops
    cases hstops
  · exact ⟨hsound, fun hstage _ _ => hhooked hrc'' hstage⟩
  · refine hsound.finalize_session hopen rfl fun proxy hsome => ?_
    rw [show l.proxy = some proxy from hsome] at hproxy
    cases hproxy

theorem server_of_init_connection {N : NoiseC S} {fuel : Nat} {s : Session S} {r : Int × Session S}
    (h : s.noiseserver_init_connection N fuel = ok r) (hrc : r.1 = NGX_OK) :
    r.2.server_noise_connection ≠ none := by
  unfold Session.noiseserver_init_connection at h
  dsimp only at h
  split_ifs at h
  · cases h
    cases hrc
  · rw [bind_eq_ok_iff] at h
    obtain ⟨q, hcall, hrest⟩ := h
    split_ifs at hrest with herror hagain
    · cases hrest
      cases hrc
    · cases hrest
      cases hrc
    · cases hrest
      unfold Session.handshake at hcall
      split at hcall
      · cases hcall
        exact absurd rfl herror
      · split_ifs at hcall
        · rw [bind_eq_ok_iff] at hcall
          obtain ⟨w, -, hw⟩ := hcall
          cases hw
          simp [Session.put]
        · cases hcall
          exact absurd rfl herror

/-- The handler of the phase `NGX_NSOC_PROTECT_PHASE`: where noise is on and it returns `NGX_OK`,
there is a noise connection. -/
theorem noiseserver_handler_server {N : NoiseC S} {conf : KeyConf} {alloc : KeyAlloc} {fuel : Nat}
    {s s' : Session S} {rc : Int} (hs : s.Bound)
    (h : s.noiseserver_handler N conf alloc fuel = ok (rc, s')) :
    s'.Bound ∧ s'.closed = s.closed ∧
      (rc = NGX_OK → s'.noise_on = true → s'.server_noise_connection ≠ none) ∧
      (rc = NGX_AGAIN ∨ rc = NGX_DONE → s'.Hooked) := by
  unfold Session.noiseserver_handler at h
  by_cases hon : s.noise_on = true
  swap
  · rw [if_pos hon] at h
    cases h
    exact ⟨hs, rfl, fun _ hon' => absurd hon' hon, by simp⟩
  rw [if_neg (not_not.mpr hon), bind_eq_ok_iff] at h
  obtain ⟨⟨code, ctx, mem⟩, -, hrest⟩ := h
  dsimp only at hrest
  by_cases hcode : code = NGX_OK
  swap
  · rw [if_pos hcode] at hrest
    cases hrest
    exact ⟨hs, rfl, by simp, by simp⟩
  rw [if_neg (not_not.mpr hcode)] at hrest
  cases hnc : s.server_noise_connection with
  | some nc =>
    rw [if_neg (by simp [hnc])] at hrest
    cases hrest
    exact ⟨hs, rfl, fun _ _ => by simp [hnc], by simp⟩
  | none =>
    rw [if_pos hnc, bind_eq_ok_iff] at hrest
    obtain ⟨q, hinit, hq⟩ := hrest
    have hresult := Session.noiseserver_init_connection_result (s := { s with ctx, mem }) hnc hinit
    have hserver := server_of_init_connection hinit
    obtain rfl : q = (rc, s') := by
      split_ifs at hq with hne
      · exact ok.inj hq
      · rw [← ok.inj hq, ← not_not.mp hne]
    generalize hr : (rc, s') = r at hresult
    cases hresult with
    | completed hframe _ _ | refused hframe _ _ =>
      cases hr
      exact ⟨hframe.bound, hframe.closed, fun _ _ => hserver rfl, by simp⟩
    | suspended hframe hhooked _ =>
      cases hr
      exact ⟨hframe.bound, hframe.closed, by simp, fun _ => hhooked⟩
    | failed hframe _ =>
      cases hr
      exact ⟨hframe.bound, hframe.closed, by simp, by simp⟩

/-- `ngx_nsoc_noiseserver_handshake_handler` finalizes the session, goes on with its phases, or
waits. -/
theorem Fine.call_handler {l l' : Lifetime S} (h : Sound l) (hopen : l.closes = 0)
    (hwaits : l.running = false) (hproxy : l.proxy = none) (hhooked : l.session.Hooked)
    (hcall : l.call_handler = ok l') : Fine l' := by
  unfold Lifetime.call_handler at hcall
  cases hnc : l.session.server_noise_connection with
  | none =>
    rw [hnc] at hcall
    cases hcall
  | some nc =>
    simp only [hnc] at hcall
    split at hcall
    swap
    · cases hcall
    cases hcall
    unfold noiseserver_handshake_handler
    by_cases hdone : nc.handshaked = true
    · rw [if_neg (not_not.mpr hdone)]
      refine ⟨h.congr hopen h.bound h.attached (fun hne => absurd hproxy hne) rfl rfl rfl rfl,
        fun _ _ _ nc' hnc' => ?_⟩
      exact ⟨(hhooked nc' hnc').read, (hhooked nc' hnc').write⟩
    · rw [if_pos hdone]
      refine h.finalize_session hopen hwaits fun proxy hsome => ?_
      rw [hproxy] at hsome
      cases hsome

/-- Only a session at its content has a proxy. -/
theorem Sound.no_proxy {l : Lifetime S} (h : Sound l)
    (hearly : l.stage ≠ .content ∨ l.running = true) : l.proxy = none := by
  by_contra hsome
  obtain ⟨hstage, hwaits⟩ := h.placed hsome
  obtain hne | hruns := hearly
  · exact hne hstage
  · rw [hwaits] at hruns
    cases hruns

theorem Sound.zero_of_running {l : Lifetime S} (h : Sound l) (hruns : l.running = true) :
    l.closes = 0 := by
  by_contra hne
  rw [h.stopped hne] at hruns
  cases hruns

theorem Fine.handshake_handler {N : NoiseC S} {fuel : Nat} {timedout : Bool} {l l' : Lifetime S}
    (h : Fine l) (hopen : l.closes = 0) (hwaits : l.running = false) (hstage : l.stage = .protect)
    (hevent : l.handshake_handler N fuel timedout = ok l') : Fine l' := by
  have hproxy := h.no_proxy (.inl (by simp [hstage]))
  have hhooked := h.hooked hstage hwaits hopen
  unfold Lifetime.handshake_handler at hevent
  cases hnc : l.session.server_noise_connection with
  | none =>
    rw [hnc] at hevent
    cases hevent
    exact h
  | some nc =>
    have hbound := h.bound nc hnc
    have hid : nc.connection = l.session.c.id := hbound
    simp only [hnc, hid, ne_eq, not_true, if_false] at hevent
    split_ifs at hevent
    · exact Fine.call_handler h.toSound hopen hwaits hproxy hhooked hevent
    rw [Session.handshake_eq hnc hbound, bind_eq_ok_iff] at hevent
    obtain ⟨q, hcall, hrest⟩ := hevent
    rw [bind_eq_ok_iff] at hcall
    obtain ⟨r, hprocess, hq⟩ := hcall
    cases hq
    have hattached := Endpoint.do_handshake_process_attached ⟨hhooked nc hnc, hbound⟩ hprocess
    have hput : Sound { l with session := l.session.put r.2 } :=
      h.toSound.congr hopen (Session.bound_put hattached.bound) (fun _ _ => by simp [Session.put])
        (fun hsome => absurd hproxy hsome) rfl rfl rfl rfl
    have hhooked' : (l.session.put r.2).Hooked := Session.hooked_put hattached.hooked
    split_ifs at hrest
    · cases hrest
      exact ⟨hput, fun _ _ _ => hhooked'⟩
    · exact Fine.call_handler hput hopen hwaits hproxy hhooked' hrest

/-- A connection to the upstream that is finalized does nothing any more. -/
theorem over_of_finalize {N : NoiseC S} {us us' : ngx_nsoc_upstream.Upstream}
    {p : ngx_nsoc_proxy.Proxy S} {next : ngx_nsoc_proxy.Call × ngx_nsoc_proxy.Proxy S}
    (h : ngx_nsoc_proxy.CallStep N us (.finalize, p) us' next) : next.1 = .ended := by
  cases h with
  | finalize now hcall =>
    simp only [ngx_nsoc_proxy.Proxy.finalize, bind_eq_ok_iff] at hcall
    obtain ⟨r, -, hr⟩ := hcall
    cases hr
    rfl

/-- A proxy that has not come to its end belongs to an open session. -/
theorem Sound.zero_of_proxy {l : Lifetime S} (h : Sound l)
    {proxy : ngx_nsoc_proxy.Call × ngx_nsoc_proxy.Proxy S} (hproxy : l.proxy = some proxy)
    (hcall : proxy.1 ≠ .ended) : l.closes = 0 := by
  by_contra hne
  exact hcall (h.ended hne proxy hproxy)

/-- A step of the proxy of an open session. -/
theorem Sound.proxy_step {l : Lifetime S} (h : Sound l) (hopen : l.closes = 0)
    (hstage : l.stage = .content) (next : ngx_nsoc_proxy.Call × ngx_nsoc_proxy.Proxy S) :
    Fine { l with running := false, proxy := some next } := by
  refine ⟨h.congr hopen h.bound h.attached (fun _ => ⟨hstage, rfl⟩) rfl rfl rfl rfl, ?_⟩
  intro hprotect
  rw [show l.stage = .protect from hprotect] at hstage
  cases hstage

/-- A session at its content that stops running. -/
theorem Sound.stops {l : Lifetime S} (h : Sound l) (hopen : l.closes = 0)
    (hstage : l.stage = .content) : Fine { l with running := false } := by
  refine ⟨h.congr hopen h.bound h.attached (fun _ => ⟨hstage, rfl⟩) rfl rfl rfl rfl, ?_⟩
  intro hprotect
  rw [show l.stage = .protect from hprotect] at hstage
  cases hstage

theorem behind_of_next {stage : Phase} (hstage : stage ≠ .protect) (h : Behind stage.next) :
    Behind stage := by
  cases stage with
  | protect => exact absurd rfl hstage
  | post_accept | preaccess | access => cases h
  | preread | content | log => trivial

/-- The handler of another phase may do to the connection what it likes. -/
theorem Fine.of_connection {l : Lifetime S} (h : Fine l) (hopen : l.closes = 0)
    (hstage : l.stage ≠ .protect) (c : Connection) (hc : c.id = l.session.c.id) :
    Fine { l with session := { l.session with c } } := by
  refine ⟨h.toSound.congr hopen ?_ h.attached h.placed rfl rfl rfl rfl,
    fun hprotect => absurd hprotect hstage⟩
  intro nc hnc
  exact (h.bound nc hnc).trans hc.symm

theorem Created.fine {l : Lifetime S} (hl : l.Created) : Fine l := by
  refine ⟨⟨Session.bound_of_none hl.server_noise_connection, ?_, fun hsome => absurd hl.proxy hsome,
    by simp [hl.closes, hl.finalized], by rw [hl.closes, hl.destroys], by simp [hl.closes, hl.opened],
    by simp [hl.closes], fun _ => hl.running, fun hne => absurd hl.closes hne⟩, fun hstage => ?_⟩
  · rw [hl.stage]
    exact False.elim
  · rw [hl.stage] at hstage
    cases hstage

theorem Reachable.fine {N : NoiseC S} {conf : KeyConf} {l : Lifetime S} (h : Reachable N conf l) :
    Fine l := by
  induction h with
  | created hl => exact hl.fine
  | @disturbed l hl hwaits read write ctx prologue mem env ih =>
    refine ⟨⟨ih.bound, ih.attached, ih.placed, ih.closes, ih.destroys, ih.opened, ih.once, ih.stopped,
      ih.ended⟩, fun hstage hruns hopen nc hnc => ?_⟩
    have hhooked := ih.hooked hstage hruns hopen nc hnc
    exact ⟨hhooked.read, hhooked.write⟩
  | session_handler hl hopen hwaits hstage hhandler ih =>
    have hproxy := ih.no_proxy (.inl hstage)
    refine ⟨ih.toSound.congr (ih.opened.mpr hopen) ih.bound ih.attached ?_ rfl rfl rfl rfl, by simp⟩
    exact fun hne => absurd hproxy hne
  | @empty_phase l hl hruns hstage ih =>
    have hproxy := ih.no_proxy (.inr hruns)
    refine ⟨ih.toSound.congr (ih.zero_of_running hruns) ih.bound ?_ ?_ rfl rfl rfl rfl, ?_⟩
    · exact fun hbehind => ih.attached (behind_of_next hstage.1 hbehind)
    · exact fun hne => absurd hproxy hne
    · intro _ hwaits
      rw [show l.running = false from hwaits] at hruns
      cases hruns
  | @handler l hl hruns hstage c hc rc ih =>
    have hzero := ih.zero_of_running hruns
    have hfine := ih.of_connection hzero hstage.1 c hc
    refine hfine.toSound.phase_end hzero (ih.no_proxy (.inr hruns)) ?_ ?_ hruns
    · exact fun _ hbehind => ih.attached (behind_of_next hstage.1 hbehind)
    · exact fun _ hprotect => absurd hprotect hstage.1
  | @noiseserver_handler l s alloc fuel rc hl hruns hstage hcall ih =>
    have hzero := ih.zero_of_running hruns
    have hproxy := ih.no_proxy (.inr hruns)
    obtain ⟨hbound, hclosed, hserver, hhooked⟩ := noiseserver_handler_server ih.bound hcall
    have hsound : Sound { l with session := s } := by
      refine ih.toSound.congr hzero hbound (fun hbehind => ?_) ih.placed hclosed rfl rfl rfl
      rw [show l.stage = .protect from hstage] at hbehind
      cases hbehind
    exact hsound.phase_end hzero hproxy (fun hrc _ => hserver hrc) (fun hrc _ => hhooked hrc) hruns
  | handshake_handler hl hopen hwaits hstage hevent ih =>
    exact ih.handshake_handler (ih.opened.mpr hopen) hwaits hstage hevent
  | @nodelay_failed l hl hruns hstage ih =>
    have hzero := ih.zero_of_running hruns
    refine (ih.toSound.stops hzero hstage).toSound.finalize_session hzero rfl fun proxy hsome => ?_
    rw [ih.no_proxy (.inr hruns)] at hsome
    cases hsome
  | proxy_resolves hl hruns hstage ih => exact ih.toSound.stops (ih.zero_of_running hruns) hstage
  | @proxy_failed l hl hopen hstage hproxy ih =>
    have hzero := ih.opened.mpr hopen
    refine (ih.toSound.stops hzero hstage).toSound.finalize_session hzero rfl fun proxy hsome => ?_
    rw [show l.proxy = some proxy from hsome] at hproxy
    cases hproxy
  | proxy_handler hl hopen hstage hproxy us pscf stream notify preread noise prologue mem env ih =>
    exact ih.toSound.proxy_step (ih.opened.mpr hopen) hstage _
  | @proxy_event l p next hl hproxy hevent ih =>
    have hplaced := ih.placed (by simp [hproxy])
    have hstep := ih.toSound.proxy_step (ih.zero_of_proxy hproxy (by simp)) hplaced.1 next
    rwa [← hplaced.2] at hstep
  | @proxy_call l us us' p call next hl hproxy hcall hstep ih =>
    have hplaced := ih.placed (by simp [hproxy])
    have hnext := ih.toSound.proxy_step (ih.zero_of_proxy hproxy (by cases hstep <;> simp)) hplaced.1 next
    rwa [← hplaced.2] at hnext
  | @proxy_finalize l us us' p next hl hproxy hstep ih =>
    have hplaced := ih.placed (by simp [hproxy])
    have hzero := ih.zero_of_proxy hproxy (by simp)
    have hnext := ih.toSound.proxy_step hzero hplaced.1 next
    rw [← hplaced.2] at hnext
    refine hnext.toSound.finalize_session hzero hplaced.2 fun proxy hsome => ?_
    cases hsome
    exact over_of_finalize hstep

/-- In every run of a session: every call of `ngx_nsoc_finalize_session` has closed the connection
and destroyed its pool, exactly once, if and only if each of them has found noise off or the noise
connection of the server created. -/
theorem closed_once_iff {N : NoiseC S} {conf : KeyConf} {l : Lifetime S} (h : Reachable N conf l) :
    (l.closes = l.finalized.length ∧ l.destroys = l.finalized.length ∧ l.finalized.length ≤ 1) ↔
      ∀ call ∈ l.finalized, call.noise_on = true → call.server_noise_connection ≠ none := by
  have hfine := h.fine
  have hall : l.finalized.countP (fun call => call.Closes) = l.finalized.length ↔
      ∀ call ∈ l.finalized, call.Closes := by
    simp only [List.countP_eq_length, decide_eq_true_eq]
  rw [← hfine.closes] at hall
  constructor
  · exact fun hclosed => hall.mp hclosed.1
  · intro hcalls
    have hlength := hall.mpr hcalls
    exact ⟨hlength, hfine.destroys.trans hlength, hlength ▸ hfine.once⟩

/-- A session that waits for its first phase. -/
def pattern_lifetime (s : Session Pattern) : Lifetime Pattern where
  session := s
  stage := .post_accept
  running := false
  proxy := none
  finalized := []
  closes := 0
  destroys := 0

theorem created_pattern_lifetime {s : Session Pattern} (hopen : s.closed = false)
    (hnone : s.server_noise_connection = none) : (pattern_lifetime s).Created :=
  ⟨rfl, rfl, rfl, rfl, rfl, rfl, hopen, hnone⟩

/-- The phases in front of `NGX_NSOC_PROTECT_PHASE` are empty. -/
theorem reachable_protect (N : NoiseC Pattern) (conf : KeyConf) {s : Session Pattern}
    (hopen : s.closed = false) (hnone : s.server_noise_connection = none)
    (hhandler : s.c.read.handler = .session_handler) :
    Reachable N conf { pattern_lifetime s with stage := .protect, running := true } :=
  .empty_phase (.empty_phase (.empty_phase (.session_handler (.created
    (created_pattern_lifetime hopen hnone)) hopen rfl (by simp [pattern_lifetime]) hhandler) rfl
    (by simp [pattern_lifetime])) rfl (by simp [pattern_lifetime, Phase.next])) rfl
    (by simp [pattern_lifetime, Phase.next])

theorem finalized_finalize_session (l : Lifetime S) : l.finalize_session.finalized =
    ⟨l.session.noise_on, l.session.server_noise_connection⟩ :: l.finalized := by
  unfold finalize_session close_connection
  split
  · split
    · rfl
    · split <;> rfl
  · rfl

/-- A handler of `NGX_NSOC_PROTECT_PHASE` that fails finalizes the session. -/
theorem finalized_of_protect_failed {l : Lifetime S} (hfinalized : l.finalized = []) :
    (l.phase_end NGX_ERROR).finalized = [⟨l.session.noise_on, l.session.server_noise_connection⟩] := by
  unfold phase_end
  rw [if_neg (by decide), if_neg (by decide), if_neg (by decide), finalized_finalize_session,
    hfinalized]

/-- The first message of a client has negotiation data of the wrong length: the connection is
closed. -/
theorem closed_once_of_bad_length :
    ∃ l : Lifetime Pattern, Reachable pattern_xx Session.pattern_conf l ∧
      l.finalized.length = 1 ∧ l.closes = 1 ∧ l.destroys = 1 := by
  have hcall : ∃ s, (Session.pattern_session [.data 0 [7]]).noiseserver_handler pattern_xx
      Session.pattern_conf Session.pattern_alloc 8 = ok (NGX_ERROR, s) ∧
      s.server_noise_connection ≠ none :=
    ⟨_, rfl, by simp [Session.put]⟩
  obtain ⟨s, hcall, hsome⟩ := hcall
  have hreach := Reachable.noiseserver_handler (reachable_protect pattern_xx Session.pattern_conf
    (s := Session.pattern_session [.data 0 [7]]) rfl rfl rfl) rfl rfl hcall
  have hfinalized := finalized_of_protect_failed
    (l := { pattern_lifetime (Session.pattern_session [.data 0 [7]]) with
      session := s, stage := .protect, running := true }) rfl
  obtain ⟨hcloses, hdestroys, -⟩ := (closed_once_iff hreach).mpr (by simp [hfinalized, hsome])
  rw [hfinalized] at hcloses hdestroys
  exact ⟨_, hreach, by rw [hfinalized]; rfl, hcloses, hdestroys⟩

/-- The key file of the server cannot be read: `ngx_nsoc_finalize_session` has been called, and the
connection is open. -/
theorem not_closed_of_missing_key :
    ¬ ∀ (N : NoiseC Pattern) (conf : KeyConf) (l : Lifetime Pattern), Reachable N conf l →
      l.closes = l.finalized.length ∧ l.destroys = l.finalized.length ∧ l.finalized.length ≤ 1 := by
  intro h
  have hcall : ∃ s, { Session.pattern_session [] with ctx := ⟨none, none⟩ }.noiseserver_handler
      pattern_xx ⟨some none, none⟩ Session.pattern_alloc 8 = ok (NGX_ERROR, s) ∧
      s.server_noise_connection = none ∧ s.noise_on = true :=
    ⟨_, rfl, rfl, rfl⟩
  obtain ⟨s, hcall, hnone, hon⟩ := hcall
  have hreach := Reachable.noiseserver_handler (reachable_protect pattern_xx ⟨some none, none⟩
    (s := { Session.pattern_session [] with ctx := ⟨none, none⟩ }) rfl rfl rfl) rfl rfl hcall
  have hfinalized := finalized_of_protect_failed
    (l := { pattern_lifetime { Session.pattern_session [] with ctx := ⟨none, none⟩ } with
      session := s, stage := .protect, running := true }) rfl
  have hclosed := (h _ _ _ hreach).1
  have hopen := hreach.fine.closes
  rw [hfinalized] at hclosed hopen
  have hzero : [(⟨s.noise_on, s.server_noise_connection⟩ : FinalizeCall)].countP
      (fun call => call.Closes) = 0 := by
    simp [FinalizeCall.Closes, hon, hnone]
  exact absurd (hclosed.symm.trans (hopen.trans hzero)) (by simp)

end Lifetime

end ngx_nsoc
