import NoiseSocket.Handler.Handshake.Sends

open Exec Exec.Result

namespace ngx_nsoc

variable {S : Type}

/-- The socket takes nothing of a message of `len` bytes until it takes all of it. Where the event
cannot be registered the session ends, so that it does not matter what was taken before. -/
def whole_or_nothing (len : Nat) : List Sent → List Bool → Bool
  | [], _ => true
  | answer :: sends, events =>
    answer.takes_all len || !(nextAnswer events).1 ||
      answer.takes_none && whole_or_nothing len sends (nextAnswer events).2

/-- The socket takes all of a message of `len` bytes at the first attempt. -/
def at_once (len : Nat) : List Sent → List Bool → Bool
  | [], _ => true
  | answer :: _, events => answer.takes_all len || !(nextAnswer events).1

namespace Endpoint

/-- A pass of the handshake that makes the message `b` and calls `c->send` with it in the state `v`:
a message of noise-c, in the second phase or directly behind the first, or the reply to another
version. -/
inductive Makes (N : NoiseC S) (fuel : Nat) (w : Endpoint S) (b : Buf) (v : Endpoint S) : Prop where
  | process (hphase : w.nc.handshake_phase = .process_phase)
      (haction : w.action N = NOISE_ACTION_WRITE_MESSAGE) (hlast : w.nc.last = 0)
      (hmsg : w.handshake_start_action_write_message N = ok (NGX_OK, some b, v))
  | start {u : Endpoint S} (hphase : w.nc.handshake_phase = .none_phase)
      (hnone : w.none_phase N fuel = ok (.cont u)) (haction : u.action N = NOISE_ACTION_WRITE_MESSAGE)
      (hmsg : u.handshake_start_action_write_message N = ok (NGX_OK, some b, v))
  | version {n : Int} {u : Endpoint S} {received : Buf} {first_hdr : FirstHdr}
      (hphase : w.nc.handshake_phase = .none_phase) (hrole : w.nc.noise_role = .server)
      (hread : w.read_negotiation fuel NGX_NSOC_1MSG_NEG_DATA_SIZE = ok (n, u)) (hn : 0 < n)
      (hbuf : u.nc.buf = some received) (hhdr : FirstHdr.ofBytes received.bytes = some first_hdr)
      (hversion : first_hdr.version_id ≠ NGX_NSOC_VERSION_ID)
      (hmsg : (u.setMsgNum NGX_NSOC_2MSG_ERR).handshake_start_action_write_message N =
        ok (NGX_OK, some b, v))

/-- The answers of the socket under which the message goes out once. A reply that is written in the
first phase is not resumed. -/
def unbroken (len : Nat) (v : Endpoint S) : Bool :=
  match v.nc.handshake_phase with
  | .none_phase => at_once len v.env.sends v.env.events
  | _ => whole_or_nothing len v.env.sends v.env.events

/-- The pass at `w`, and the first pass of each of the next calls as long as they are needed. -/
def passes (N : NoiseC S) (fuel : Nat) :
    Nat → Endpoint S → Result (ControlFlow (Endpoint S) (Int × Endpoint S))
  | 0, w => w.do_handshake_process_body N fuel
  | calls + 1, w => do
    let flow ← w.do_handshake_process_body N fuel
    match suspended flow with
    | none => ok flow
    | some u => passes N fuel calls u

/-- What the buffer of the connection still offers. -/
def unsent (w : Endpoint S) : List UInt8 :=
  match w.nc.buf with
  | none => []
  | some b => b.bytes.drop b.pos

/-- What has been accepted when a pass ends: so much that the rest is kept, or all, or some where the
handshake has failed. -/
inductive Accepted (message tx : List UInt8) (flow : ControlFlow (Endpoint S) (Int × Endpoint S)) :
    Prop where
  | pending {u : Endpoint S} (hflow : suspended flow = some u) (htx : u.env.tx ++ u.unsent = tx ++ message)
  | sent (hflow : suspended flow = none) (htx : (flowState flow).env.tx = tx ++ message)
  | failed {u : Endpoint S} {part : List UInt8} (hflow : flow = .done (NGX_ERROR, u))
      (hpart : part <+: message) (htx : u.env.tx = tx ++ part)

/-- An error of the next `c->send` ends the handshake. -/
def FailsOnError (N : NoiseC S) (fuel : Nat) (w v : Endpoint S) : Prop :=
  v.env.sends.head? = some .error → ∃ u, w.do_handshake_process_body N fuel = ok (.done (NGX_ERROR, u))

/-- The message `b`, offered first in the state `v`, is accepted once, and nothing is read and no other
message is written until it is; and an error of `c->send` is returned. -/
structure WrittenOnce (N : NoiseC S) (fuel : Nat) (b : Buf) (w v : Endpoint S) : Prop where
  accepted : ∀ calls, ∃ flow, passes N fuel calls w = ok flow ∧
    Accepted (b.bytes.drop b.pos) v.env.tx flow ∧ (flowState flow).trace = v.trace
  first : FailsOnError N fuel w v
  again : ∀ calls flow u, passes N fuel calls w = ok flow → suspended flow = some u →
    FailsOnError N fuel u u

section

variable {N : NoiseC S} {fuel : Nat} {b : Buf} {w v : Endpoint S}
  {flow : ControlFlow (Endpoint S) (Int × Endpoint S)}

theorem suspended_error (u : Endpoint S) : suspended (.done (NGX_ERROR, u)) = none := by
  rw [suspended, if_neg]
  exact fun h => absurd h.1 (by decide)

theorem passes_of_over (h : w.do_handshake_process_body N fuel = ok flow) (hover : suspended flow = none)
    (calls : Nat) : passes N fuel calls w = ok flow := by
  cases calls with
  | zero => exact h
  | succ calls =>
    rw [passes, h, bind_ok, hover]

theorem passes_of_suspended {u : Endpoint S} (h : w.do_handshake_process_body N fuel = ok flow)
    (hflow : suspended flow = some u) (calls : Nat) :
    passes N fuel (calls + 1) w = passes N fuel calls u := by
  rw [passes, h, bind_ok, hflow]

/-- A pass that does not leave the message to the next call. -/
theorem writtenOnce_of_over (h : w.do_handshake_process_body N fuel = ok flow)
    (hover : suspended flow = none) (haccepted : Accepted (b.bytes.drop b.pos) v.env.tx flow)
    (htrace : (flowState flow).trace = v.trace)
    (herror : v.env.sends.head? = some .error → ∃ u, flow = .done (NGX_ERROR, u)) :
    WrittenOnce N fuel b w v := by
  refine ⟨fun calls => ⟨flow, passes_of_over h hover calls, haccepted, htrace⟩, ?_, ?_⟩
  · intro hhead
    obtain ⟨u, rfl⟩ := herror hhead
    exact ⟨u, h⟩
  · intro calls flow' u hpasses hsus
    rw [passes_of_over h hover calls] at hpasses
    cases hpasses
    rw [hover] at hsus
    cases hsus

/-- A message goes out in the pass that made it. -/
theorem writtenOnce_of_takes_all (h : w.do_handshake_process_body N fuel = ok flow)
    (hall : v.takes_all (b.bytes.drop b.pos).length = true) (hover : suspended flow = none)
    (htx : (flowState flow).env.tx = v.env.tx ++ b.bytes.drop b.pos)
    (htrace : (flowState flow).trace = v.trace) : WrittenOnce N fuel b w v := by
  refine writtenOnce_of_over h hover (.sent hover htx) htrace ?_
  intro hhead
  unfold takes_all at hall
  cases hsends : v.env.sends with
  | nil =>
    rw [hsends] at hhead
    cases hhead
  | cons answer sends =>
    rw [hsends] at hall hhead
    obtain rfl : answer = .error := by simpa using hhead
    cases hall

/-- The event cannot be registered: the handshake ends. -/
theorem writtenOnce_of_refused {u : Endpoint S} {part : List UInt8}
    (h : w.do_handshake_process_body N fuel = ok (.done (NGX_ERROR, u)))
    (hpart : part <+: b.bytes.drop b.pos) (htx : u.env.tx = v.env.tx ++ part)
    (htrace : u.trace = v.trace) : WrittenOnce N fuel b w v :=
  writtenOnce_of_over h (suspended_error u) (.failed rfl hpart htx) htrace fun _ => ⟨u, rfl⟩

/-- A message that was kept is offered again by the second phase. -/
theorem body_of_kept (hphase : w.nc.handshake_phase = .process_phase)
    (hlast : w.nc.last = NOISE_ACTION_WRITE_MESSAGE) (hbuf : w.nc.buf = some b) :
    w.do_handshake_process_body N fuel = ok (w.send_action N b) := by
  have haction : w.action N = NOISE_ACTION_WRITE_MESSAGE := by
    rw [action, hlast, if_pos (by decide)]
  have hnot : ¬ w.nc.last = 0 := by
    rw [hlast]
    decide
  unfold do_handshake_process_body process_phase write_action
  simp only [hphase, haction, if_true, hnot, if_false, bind_ok, hbuf]
  rw [if_neg (by simp)]

/-- The first attempt has left the message to the next call. -/
theorem writtenOnce_of_again {u : Endpoint S} (h : w.do_handshake_process_body N fuel = ok flow)
    (hflow : suspended flow = some u) (hunsent : u.unsent = b.bytes.drop b.pos)
    (htrace : u.trace = v.trace) (hstate : flowState flow = u) :
    WrittenOnce N fuel b w v ↔ u.env.tx = v.env.tx ∧ v.env.sends.head? ≠ some .error ∧
      WrittenOnce N fuel b u u := by
  have hlong : ∀ {part : List UInt8}, part ++ b.bytes.drop b.pos = b.bytes.drop b.pos → part = [] := by
    intro part hpart
    exact List.append_left_eq_self.mp hpart
  constructor
  · intro hwritten
    have htx : u.env.tx = v.env.tx := by
      obtain ⟨flow', hpasses, haccepted, -⟩ := hwritten.accepted 0
      rw [passes, h] at hpasses
      cases hpasses
      cases haccepted with
      | pending hsus htx =>
        rw [hflow] at hsus
        cases hsus
        rw [hunsent] at htx
        exact List.append_cancel_right htx
      | sent hsus _ =>
        rw [hflow] at hsus
        cases hsus
      | failed hsus _ _ =>
        rw [hsus, suspended_error] at hflow
        cases hflow
    refine ⟨htx, ?_, ?_, ?_, ?_⟩
    · intro hhead
      obtain ⟨u', herror⟩ := hwritten.first hhead
      rw [h] at herror
      cases herror
      rw [suspended_error] at hflow
      cases hflow
    · intro calls
      obtain ⟨flow', hpasses, haccepted, htrace'⟩ := hwritten.accepted (calls + 1)
      rw [passes_of_suspended h hflow] at hpasses
      rw [← htx] at haccepted
      exact ⟨flow', hpasses, haccepted, htrace'.trans htrace.symm⟩
    · exact hwritten.again 0 flow u h hflow
    · intro calls flow' u' hpasses hsus
      exact hwritten.again (calls + 1) flow' u' ((passes_of_suspended h hflow calls).trans hpasses) hsus
  · rintro ⟨htx, hhead, hwritten⟩
    refine ⟨?_, fun herror => absurd herror hhead, ?_⟩
    · intro calls
      cases calls with
      | zero =>
        refine ⟨flow, h, .pending hflow ?_, ?_⟩
        · rw [hunsent, htx]
        · rw [hstate, htrace]
      | succ calls =>
        obtain ⟨flow', hpasses, haccepted, htrace'⟩ := hwritten.accepted calls
        rw [htx] at haccepted
        exact ⟨flow', (passes_of_suspended h hflow calls).trans hpasses, haccepted, htrace'.trans htrace⟩
    · intro calls flow' u' hpasses hsus
      cases calls with
      | zero =>
        rw [passes, h] at hpasses
        cases hpasses
        rw [hflow] at hsus
        cases hsus
        exact hwritten.first
      | succ calls =>
        rw [passes_of_suspended h hflow] at hpasses
        exact hwritten.again calls flow' u' hpasses hsus

/-- A message of the second phase. The induction is on the answers of the socket: an attempt that takes
nothing is followed by another one. -/
theorem writtenOnce_iff_of_process (hphase : v.nc.handshake_phase = .process_phase)
    (hbody : w.do_handshake_process_body N fuel = ok (v.send_action N b)) :
    WrittenOnce N fuel b w v ↔
      whole_or_nothing (b.bytes.drop b.pos).length v.env.sends v.env.events = true := by
  generalize hscript : v.env.sends = script
  induction script generalizing w v with
  | nil =>
    have hall : v.takes_all (b.bytes.drop b.pos).length = true := by
      rw [Endpoint.takes_all, hscript]
    have hend := sendEnd_send_action N b v
    generalize v.send_action N b = flow at hbody hend
    refine iff_of_true ?_ rfl
    cases hend with
    | whole _ hover htx htrace => exact writtenOnce_of_takes_all hbody hall hover htx htrace
    | refused hsends => simp [hscript] at hsends
    | kept hsends => simp [hscript] at hsends
  | cons answer sends ih =>
    have hend := sendEnd_send_action N b v
    generalize v.send_action N b = flow at hbody hend
    rw [whole_or_nothing]
    cases hend with
    | whole hall hover htx htrace =>
      refine iff_of_true (writtenOnce_of_takes_all hbody hall hover htx htrace) ?_
      rw [Endpoint.takes_all, hscript] at hall
      have hanswer : answer.takes_all (b.bytes.drop b.pos).length = true := hall
      rw [hanswer, Bool.true_or, Bool.true_or]
    | refused hsends hevent htx htrace =>
      refine iff_of_true (writtenOnce_of_refused hbody (List.take_prefix _ _) htx htrace) ?_
      simp [hevent]
    | @kept u answer' sends' hsends hpart hevent hkept =>
      rw [hscript] at hsends
      cases hsends
      have hunsent : u.unsent = b.bytes.drop b.pos := by
        simp [unsent, hkept.nc]
      rw [writtenOnce_of_again hbody (suspended_of_kept hkept) hunsent hkept.trace rfl]
      have hnext : WrittenOnce N fuel b u u ↔ whole_or_nothing (b.bytes.drop b.pos).length sends
          (nextAnswer v.env.events).2 = true := by
        have hrest := ih (w := u) (v := u) (by rw [hkept.nc]; exact hphase)
          (body_of_kept (by rw [hkept.nc]; exact hphase) (by rw [hkept.nc]) (by rw [hkept.nc]))
          (by rw [hkept.env])
        rw [hrest, hkept.env]
      rw [hnext, hkept.env, hpart, hevent]
      cases answer with
      | error => simp [hscript, Sent.takes_none]
      | again => simp [hscript, Sent.portion, Sent.takes_none]
      | count limit =>
        have hlimit : limit < (b.bytes.drop b.pos).length := Nat.lt_of_not_le (of_decide_eq_false hpart)
        have hnone : (b.bytes.drop b.pos).take limit = [] ↔ limit = 0 := by
          rw [← List.length_eq_zero_iff, List.length_take]
          omega
        simp [hscript, Sent.portion, Sent.takes_none, hnone]

/-- The reader of a part with room in the buffer asks the socket. -/
theorem trace_read_part (part : Part) {size : Nat} (hsize : size ≠ 0) (hbuf : w.nc.buf = some b)
    (hroom : b.room ≠ 0) (heof : w.c.read.eof = false) :
    ∃ o, (w.read_part part size).2.trace = o :: w.trace := by
  have hfinish : ∀ (u : Endpoint S) (n : Int), (u.read_finish n size).2.trace = u.trace := by
    intro u n
    unfold read_finish
    dsimp only
    split_ifs <;> rfl
  have hagain : ∀ u : Endpoint S, u.read_again.2.trace = u.trace := by
    intro u
    unfold read_again
    dsimp only
    split_ifs <;> rfl
  refine ⟨.recv part b.room (answerCode (w.env.rx.recv b.room).1) (answerBytes (w.env.rx.recv b.room).1), ?_⟩
  have heof' : (w.setBuf (some b)).c.read.eof = false := heof
  unfold read_part read_handshake_data fill_buf
  simp only [hsize, hbuf, hroom, heof', ne_eq, not_false_eq_true, if_true, if_false, Bool.false_eq_true]
  split_ifs
  all_goals first
    | rw [hfinish]
      rfl
    | rw [hagain]
      rfl
    | rfl

/-- Where a whole first header was received, its length stays in the connection. -/
theorem header_received {true_len : Nat} {n : Int} {u : Endpoint S}
    (h : w.read_negotiation fuel true_len = ok (n, u)) (hn : 0 < n) :
    ∃ size, size ≠ 0 ∧ u.nc.neg_data = .known size ∧ u.c.read.eof = false := by
  have hpart : ∀ {v : Endpoint S} {size : Nat}, v.nc.neg_data = .known size →
      (n, u) = v.read_part (.neg_data size) size →
      size ≠ 0 ∧ u.nc.neg_data = .known size ∧ u.c.read.eof = false := by
    intro v size hv hr
    have hsize : size ≠ 0 := by
      rintro rfl
      rw [read_part_zero] at hr
      cases hr
      exact absurd hn (by decide)
    have hpos : 0 ≤ (v.read_part (.neg_data size) size).1 := by
      rw [← hr]
      exact Int.le_of_lt hn
    obtain ⟨-, -, -, -, -, heof⟩ := part_rx_of_nonneg (Nat.pos_of_ne_zero hsize) hpos
    have hneg := (read_part_cases (.neg_data size) size v).1.neg_data
    rw [← hr] at heof hneg
    exact ⟨hsize, hneg.trans hv, heof⟩
  cases read_negotiation_cases h with
  | known size hsize hr => exact ⟨size, hpart hsize hr⟩
  | accepted v _ hlen _ hknown hr =>
    refine ⟨true_len, hpart ?_ hr⟩
    exact hlen.size.trans hknown
  | again v _ _ _ _ hr =>
    cases v.read_again_cases with
    | inl hfail =>
      rw [← hr] at hfail
      exact absurd hfail.2 (by simp only [NGX_ERROR]; omega)
    | inr hagain =>
      rw [← hr] at hagain
      exact absurd hagain.1 (by simp only [NGX_AGAIN]; omega)
  | error v _ _ _ _ hr | mismatch v _ _ _ _ hr =>
    cases hr
    exact absurd hn (by decide)

/-- The first phase begins with a read. -/
theorem body_reads {flow : ControlFlow (Endpoint S) (Int × Endpoint S)} {size : Nat}
    (hphase : w.nc.handshake_phase = .none_phase) (hrole : w.nc.noise_role = .server)
    (hneg : w.nc.neg_data = .known size) (hsize : size ≠ 0) (hbuf : w.nc.buf = some b)
    (hroom : b.room ≠ 0) (heof : w.c.read.eof = false)
    (h : w.do_handshake_process_body N fuel = ok flow) : (flowState flow).trace ≠ w.trace := by
  have hreads : ∀ r, NegSteps NGX_NSOC_1MSG_NEG_DATA_SIZE w r → w.trace.length < r.2.trace.length := by
    intro r hr
    cases hr with
    | known size' hsize' hr =>
      rw [hneg] at hsize'
      cases hsize'
      obtain ⟨o, htrace⟩ := trace_read_part (.neg_data size) hsize hbuf hroom heof
      rw [hr, htrace]
      exact Nat.lt_succ_self _
    | again _ _ hunset | error _ _ hunset | mismatch _ hunset | accepted _ hunset =>
      rw [hneg] at hunset
      cases hunset
  have hgrows : ∀ {v : Endpoint S} {obs : List Obs} {trace : List Obs}, w.trace.length < v.trace.length →
      trace = obs ++ v.trace → w.trace.length < trace.length := by
    intro v obs trace hlt heq
    rw [heq, List.length_append]
    omega
  have hnone : ∀ flow, NoneStep N w flow → w.trace.length < (flowState flow).trace.length := by
    intro flow hstep
    cases hstep with
    | client hclient =>
      rw [hrole] at hclient
      cases hclient
    | neg_stopped _ hsteps => exact hreads _ hsteps
    | @version r q _ _ _ hsteps _ _ _ _ hreply =>
      have hsame : q.2.trace = [] ++ r.2.trace := (version_error_cases hreply).1.trace
      exact hgrows (hreads _ hsteps) hsame
    | header _ hsteps _ _ _ _ hstart =>
      obtain ⟨obs, htrace⟩ := hstart.extends
      exact hgrows (hreads _ hsteps) htrace
  have hlt : w.trace.length < (flowState flow).trace.length := by
    cases do_handshake_process_body_cases h with
    | none_done _ hstep => exact hnone _ hstep
    | none_process _ hstep hprocess =>
      obtain ⟨obs, htrace⟩ := hprocess.extends
      exact hgrows (hnone _ hstep) htrace
    | process hother =>
      rw [hphase] at hother
      cases hother
    | spin hother =>
      rw [hphase] at hother
      cases hother
  intro heq
  rw [heq] at hlt
  exact Nat.lt_irrefl _ hlt

/-- The reply of the first phase. It is not resumed: the next call reads behind it. -/
theorem writtenOnce_iff_of_reply {size : Nat} (hphase : v.nc.handshake_phase = .none_phase)
    (hrole : v.nc.noise_role = .server) (hneg : v.nc.neg_data = .known size) (hsize : size ≠ 0)
    (hroom : b.room ≠ 0) (heof : v.c.read.eof = false)
    (hbody : w.do_handshake_process_body N fuel = ok (.done (v.reply b))) :
    WrittenOnce N fuel b w v ↔
      at_once (b.bytes.drop b.pos).length v.env.sends v.env.events = true := by
  have hend := sendEnd_reply b v
  generalize ControlFlow.done (v.reply b) = flow at hbody hend
  cases hend with
  | whole hall hover htx htrace =>
    refine iff_of_true (writtenOnce_of_takes_all hbody hall hover htx htrace) ?_
    unfold Endpoint.takes_all at hall
    cases hsends : v.env.sends with
    | nil => rfl
    | cons answer sends =>
      rw [hsends] at hall
      have hanswer : answer.takes_all (b.bytes.drop b.pos).length = true := hall
      rw [at_once, hanswer, Bool.true_or]
  | refused hsends hevent htx htrace =>
    refine iff_of_true (writtenOnce_of_refused hbody (List.take_prefix _ _) htx htrace) ?_
    rw [hsends, at_once, hevent]
    simp
  | @kept u answer sends hsends hpart hevent hkept =>
    refine iff_of_false (fun hwritten => ?_) ?_
    · -- the second call reads, or does not return
      obtain ⟨flow', hpasses, -, htrace⟩ := hwritten.accepted 1
      rw [passes_of_suspended hbody (suspended_of_kept hkept), passes] at hpasses
      have hneg' : u.nc.neg_data = .known size := by
        rw [hkept.nc]
        exact hneg
      have hbuf' : u.nc.buf = some b := by rw [hkept.nc]
      refine body_reads ?_ ?_ hneg' hsize hbuf' hroom (hkept.eof.trans heof) hpasses
        (htrace.trans hkept.trace.symm)
      · rw [hkept.nc]
        exact hphase
      · rw [hkept.nc]
        exact hrole
    · rw [hsends, at_once, hpart, hevent]
      decide

/-- A handshake message, or the reply to another version, is accepted once by the socket, whatever
the calls of `c->send` answer, exactly if none of them takes a part of it or fails; the reply has to
go out at once. -/
theorem writtenOnce_iff (h : w.Makes N fuel b v) :
    WrittenOnce N fuel b w v ↔ v.unbroken (b.bytes.drop b.pos).length = true := by
  have hprocess : ∀ {u : Endpoint S}, u.nc.handshake_phase = .process_phase →
      u.nc.last = 0 → u.action N = NOISE_ACTION_WRITE_MESSAGE →
      u.handshake_start_action_write_message N = ok (NGX_OK, some b, v) →
      v.nc.handshake_phase = .process_phase ∧ u.process_phase N fuel = ok (v.send_action N b) := by
    intro u hphase hlast haction hmsg
    constructor
    · rw [(write_message_cases hmsg).1.nc]
      exact hphase
    · unfold process_phase write_action
      simp only [haction, hlast, if_true, hmsg, bind_ok]
      rw [if_neg (by simp)]
  unfold unbroken
  cases h with
  | process hphase haction hlast hmsg =>
    obtain ⟨hv, hcall⟩ := hprocess hphase hlast haction hmsg
    rw [hv]
    apply writtenOnce_iff_of_process hv
    rw [do_handshake_process_body, hphase]
    exact hcall
  | @start u hphase hnone haction hmsg =>
    have hstarted : ∀ {x : Endpoint S}, StartOutcome N x (.cont u) →
        u.nc.handshake_phase = .process_phase ∧ u.nc.last = 0 := by
      intro x hout
      cases hout
      exact ⟨rfl, rfl⟩
    have hu : u.nc.handshake_phase = .process_phase ∧ u.nc.last = 0 := by
      cases none_phase_cases hnone with
      | client _ hout | header _ _ _ _ _ _ hout => exact hstarted hout
    obtain ⟨hv, hcall⟩ := hprocess hu.1 hu.2 haction hmsg
    rw [hv]
    apply writtenOnce_iff_of_process hv
    rw [do_handshake_process_body, hphase]
    simp only [hnone, bind_ok]
    exact hcall
  | @version n u received first_hdr hphase hrole hread hn hbuf hhdr hversion hmsg =>
    obtain ⟨size, hsize, hneg, heof⟩ := header_received hread hn
    have hreads := (read_negotiation_cases hread).frame.reads
    obtain ⟨hframe, hout⟩ := write_message_cases hmsg
    have hv : v.nc.handshake_phase = .none_phase := by
      rw [hframe.nc]
      exact hreads.handshake_phase.trans hphase
    rw [hv]
    have hb : b = ⟨err_message, 0, message_room NGX_NSOC_2MSG_NEG_DATA_ERR_SIZE⟩ := by
      obtain ⟨-, hfail | ⟨-, hb⟩⟩ := hout.of_error rfl
      · cases hfail
      · exact Option.some.inj hb
    have hneg' : v.nc.neg_data = .known size := by
      rw [hframe.nc]
      exact hneg
    refine writtenOnce_iff_of_reply hv ?_ hneg' hsize ?_ ?_ ?_
    · rw [hframe.nc]
      exact hreads.noise_role.trans hrole
    · rw [hb]
      decide
    · rw [hframe.c]
      exact heof
    · rw [do_handshake_process_body, hphase]
      simp only [none_phase, hrole, hread, bind_ok]
      rw [if_neg (by omega)]
      simp only [hbuf, Option.bind_some, hhdr]
      rw [if_pos hversion, version_error_eq_reply hmsg]
      rfl

end

/-- A client in front of its first message. -/
def pattern_client (sends : List Sent) : Endpoint Pattern :=
  .create ⟨some ⟨0, 1⟩, none⟩ NOISE_PROTOCOL_PAYLOAD_SIZE .client false ⟨.initiator, 0⟩ proxy_prologue
    ⟨fun _ => 0, []⟩ { Env.quiet [] false with sends }

theorem pattern_client_makes (sends : List Sent) : ∃ b v, (pattern_client sends).Makes pattern_xx 8 b v ∧
    (pattern_client sends).do_handshake_process_body pattern_xx 8 = ok (v.send_action pattern_xx b) ∧
      v.nc.handshake_phase = .process_phase ∧ (b.bytes.drop b.pos).length = 42 ∧
      v.env.sends = sends ∧ v.env.events = [] :=
  ⟨_, _, .start rfl rfl rfl rfl, rfl, rfl, rfl, rfl, rfl⟩

/-- The socket is full, and then takes the whole first message of the client. -/
theorem writtenOnce_of_full_socket : ∃ b v, (pattern_client [.again, .count 100]).Makes pattern_xx 8 b v ∧
    WrittenOnce pattern_xx 8 b (pattern_client [.again, .count 100]) v := by
  obtain ⟨b, v, hmakes, -, hphase, hlen, hsends, hevents⟩ := pattern_client_makes [.again, .count 100]
  refine ⟨b, v, hmakes, (writtenOnce_iff hmakes).mpr ?_⟩
  rw [unbroken, hphase, hlen, hsends, hevents]
  rfl

/-- The socket takes three bytes of it: the next call offers them again. -/
theorem not_writtenOnce_of_part : ∃ b v, (pattern_client [.count 3]).Makes pattern_xx 8 b v ∧
    ¬ WrittenOnce pattern_xx 8 b (pattern_client [.count 3]) v := by
  obtain ⟨b, v, hmakes, hbody, hphase, hlen, hsends, hevents⟩ := pattern_client_makes [.count 3]
  refine ⟨b, v, hmakes, fun hwritten => ?_⟩
  have hanswers := (writtenOnce_iff_of_process hphase hbody).mp hwritten
  rw [hlen, hsends, hevents] at hanswers
  cases hanswers

end Endpoint

end ngx_nsoc
