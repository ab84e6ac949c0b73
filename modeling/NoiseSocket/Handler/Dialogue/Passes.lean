import NoiseSocket.Handler.Dialogue.Standing

open Exec Exec.Result

namespace ngx_nsoc

variable {S : Type}

namespace Endpoint

/-- Where the phase that begins gets to the header of the first message, the header comes in by one
read; and where it gets to the noise part of a message, the whole of that comes in. -/
structure Uncut (N : NoiseC S) (w : Endpoint S) : Prop where
  header : w.nc.handshake_phase = .none_phase → w.nc.noise_role = .server →
    HeaderWhole w.nc.neg_data w.env.rx
  message : w.nc.handshake_phase = .process_phase → w.action N = NOISE_ACTION_READ_MESSAGE →
    ∀ rx ∈ w.gate_rx, ComesWhole w.nc.noise_msg rx

theorem uncut_iff {N : NoiseC S} {w : Endpoint S} :
    ((w.nc.handshake_phase = .none_phase → w.nc.noise_role = .server → HeaderWhole w.nc.neg_data w.env.rx) ∧
      (w.nc.handshake_phase = .process_phase → w.action N = NOISE_ACTION_READ_MESSAGE →
        ∀ rx ∈ w.gate_rx, ComesWhole w.nc.noise_msg rx)) ↔ w.Uncut N :=
  ⟨fun h => ⟨h.1, h.2⟩, fun h => ⟨h.header, h.message⟩⟩

instance (N : NoiseC S) (w : Endpoint S) : Decidable (w.Uncut N) :=
  decidable_of_iff _ uncut_iff

/-- How much of the message that is due an endpoint has taken from the stream. -/
inductive Place (N : NoiseC S) (w : Endpoint S) (left : List UInt8) : Prop where
  | header (hphase : w.nc.handshake_phase = .none_phase) (hnum : w.nc.msg_num = NGX_NSOC_1MSG)
      (hneg : w.nc.neg_data.incomplete) (hclient : w.nc.noise_role = .client → w.nc.neg_data = .unset)
      (hbuf : w.nc.buf = none) (hleft : left = w.nc.neg_data.held ++ w.env.rx.bytes)
  | behind_len (hphase : w.nc.handshake_phase = .none_phase) (hnum : w.nc.msg_num = NGX_NSOC_1MSG)
      (hrole : w.nc.noise_role = .server) (hneg : w.nc.neg_data = .known NGX_NSOC_1MSG_NEG_DATA_SIZE)
      (hbuf : w.nc.buf = some ⟨[], 0, NGX_NSOC_1MSG_NEG_DATA_SIZE⟩)
      (hleft : left = lenBytes NGX_NSOC_1MSG_NEG_DATA_SIZE ++ w.env.rx.bytes)
  | message (hphase : w.nc.handshake_phase = .process_phase) (hat : w.AtMessage left)
      (hlast : w.nc.last = 0 ∨ w.nc.last = NOISE_ACTION_READ_MESSAGE ∧
        N.handshakestate_get_action w.noise = NOISE_ACTION_READ_MESSAGE)
      (hwrite : N.handshakestate_get_action w.noise = NOISE_ACTION_WRITE_MESSAGE → w.nc.neg_data = .unset)

/-- An endpoint whose reads were all suspended at a place from which they go on. -/
structure Stands (N : NoiseC S) (w : Endpoint S) (left : List UInt8) : Prop where
  steady : w.Steady
  unset : w.nc.noise_msg = .unset
  place : w.Place N left

/-- A phase does what its dialogue does next. -/
inductive Simulated (N : NoiseC S) (w : Endpoint S) (left : List UInt8) :
    ControlFlow (Endpoint S) (Int × Endpoint S) → Prop where
  | next {v : Endpoint S} {rest : List UInt8} (hturn : (w.dialogue left).turn N = .next (v.dialogue rest))
      (hv : v.Stands N rest) : Simulated N w left (.cont v)
  | sent {v : Endpoint S} {rest : List UInt8} (hturn : (w.dialogue left).turn N = .next (v.dialogue rest))
      (hv : v.Stands N rest) (hwait : v.env.rx.bytes = [] → (v.dialogue rest).turn N = .waits) :
      Simulated N w left (.done (NGX_AGAIN, v))
  | waits {v : Endpoint S} (hturn : v.env.rx.bytes = [] → (w.dialogue left).turn N = .waits)
      (hshows : v.Shows (w.dialogue left))
      (hon : w.Uncut N → v.dialogue left = w.dialogue left ∧ v.Stands N left) :
      Simulated N w left (.done (NGX_AGAIN, v))
  | ended {n : Int} {v : Endpoint S} {d : Dialogue S} (hturn : (w.dialogue left).turn N = .ended n d)
      (hshows : v.Shows d) (hn : n ≠ NGX_AGAIN) : Simulated N w left (.done (n, v))

section

variable {N : NoiseC S} {w v : Endpoint S} {r : Int × Endpoint S} {left : List UInt8}

theorem turn_of_read (hphase : w.nc.handshake_phase = .process_phase)
    (haction : N.handshakestate_get_action w.noise = NOISE_ACTION_READ_MESSAGE) :
    (w.dialogue left).turn N = (w.dialogue left).read N := by
  have hnot : N.handshakestate_get_action w.noise ≠ NOISE_ACTION_WRITE_MESSAGE := by
    rw [haction]
    decide
  unfold Dialogue.turn
  simp only [dialogue, hphase]
  rw [if_neg hnot, if_pos haction]

theorem isMessage_next_num (msg_num : Nat) : IsMessage (next_num msg_num) := by
  unfold next_num
  split_ifs
  · exact .inr (.inl rfl)
  · exact .inr (.inr rfl)
  · exact .inl rfl

/-- What a call that receives a message leads to. -/
def read_flow (r : Int × Endpoint S) : ControlFlow (Endpoint S) (Int × Endpoint S) :=
  if r.1 = NGX_OK then .cont r.2 else .done r

/-- Behind the negotiation part. -/
theorem read_of_behind {rest message more : List UInt8} {call : Nat × S}
    (hgate : Dialogue.negotiation_part w.nc.msg_num left = .behind rest)
    (hpart : Dialogue.noise_part rest = some (message, more)) (hne : message ≠ [])
    (hcall : N.handshakestate_read_message message w.noise = call) :
    (w.dialogue left).read N =
      if call.1 ≠ NOISE_ERROR_NONE then .ended NGX_ERROR ((w.dialogue left).given message call)
      else .next { (w.dialogue left).given message call with msg_num := next_num w.nc.msg_num, left := more } := by
  have hgate : Dialogue.negotiation_part (w.dialogue left).msg_num (w.dialogue left).left = .behind rest := hgate
  obtain ⟨b, bs, rfl⟩ := List.exists_cons_of_ne_nil hne
  unfold Dialogue.read
  rw [hgate]
  dsimp only
  rw [hpart]
  dsimp only
  rw [show N.handshakestate_read_message (b :: bs) (w.dialogue left).noise = call from hcall]
  rfl

theorem read_of_short {rest : List UInt8}
    (hgate : Dialogue.negotiation_part w.nc.msg_num left = .behind rest)
    (hpart : Dialogue.noise_part rest = none) : (w.dialogue left).read N = .waits := by
  have hgate : Dialogue.negotiation_part (w.dialogue left).msg_num (w.dialogue left).left = .behind rest := hgate
  unfold Dialogue.read
  rw [hgate]
  dsimp only
  rw [hpart]

theorem get_action_of_read (hplace : w.nc.last = 0 ∨ w.nc.last = NOISE_ACTION_READ_MESSAGE ∧
      N.handshakestate_get_action w.noise = NOISE_ACTION_READ_MESSAGE)
    (haction : w.action N = NOISE_ACTION_READ_MESSAGE) :
    N.handshakestate_get_action w.noise = NOISE_ACTION_READ_MESSAGE := by
  rcases hplace with hzero | ⟨-, hread⟩
  · rwa [action, if_neg (not_not.mpr hzero)] at haction
  · exact hread

theorem AtMessage.setLast (hw : w.AtMessage left) (last : Int) : (w.setLast last).AtMessage left :=
  ⟨hw.steady.congr rfl rfl, hw.buf, hw.unset, hw.num, hw.first, hw.later, hw.left⟩

/-- A read that was suspended at the negotiation length goes on from there. -/
theorem stands_of_waits (hphase : w.nc.handshake_phase = .process_phase)
    (hread : N.handshakestate_get_action w.noise = NOISE_ACTION_READ_MESSAGE) (hreads : Reads w v)
    (hv : v.AtMessage left) (hlast : v.nc.last = NOISE_ACTION_READ_MESSAGE) : v.Stands N left := by
  refine ⟨hv.steady, hv.unset, .message (hreads.handshake_phase.trans hphase) hv (.inr ⟨hlast, ?_⟩) ?_⟩
  · rw [hreads.noise]
    exact hread
  · intro hwrite
    rw [hreads.noise, hread] at hwrite
    cases hwrite

/-- Behind a message that noise-c has taken the next one is due. -/
theorem stands_of_accepted (hphase : v.nc.handshake_phase = .process_phase) (hv : v.Steady)
    (hnum : IsMessage v.nc.msg_num) (noise : S) (trace : List Obs) :
    (Endpoint.message_done { v with noise, trace }).Stands N v.env.rx.bytes := by
  have hsteady : (Endpoint.message_done { v with noise, trace }).Steady := hv.congr rfl rfl
  exact ⟨hsteady, rfl, .message hphase ⟨hsteady, rfl, rfl, hnum, fun _ => rfl, fun _ => rfl, rfl⟩ (.inl rfl)
    fun _ => rfl⟩

/-- Behind the negotiation part of a message its noise part is read. -/
structure Behind (w v : Endpoint S) (q : Int × Endpoint S) (left : List UInt8) : Prop where
  part : Dialogue.negotiation_part w.nc.msg_num left = .behind v.env.rx.bytes
  reads : Reads w q.2
  msg_num : q.2.nc.msg_num = next_num w.nc.msg_num
  read : NoiseRead (v.setBuf none) q
  rx : w.gate_rx = some v.env.rx
  noise_msg : v.nc.noise_msg = w.nc.noise_msg
  checked : w.nc.msg_num = NGX_NSOC_1MSG ∧ v.trace = w.trace ∨ w.Checked v 0

theorem AtMessage.behind {n : Int} {q : Int × Endpoint S} (hat : w.AtMessage left)
    (hgate : GateOutcome w (.leave n v)) (hn : 0 ≤ n) (hmsg : MsgSteps (v.setBuf none) q) :
    Behind w v q left := by
  obtain ⟨hrx, hunset'⟩ := hgate.rx_of_nonneg hn
  cases hat.negGate hgate with
  | passed hpart hreads hv hunset hnum hchecked =>
    have hsteady : (v.setBuf none).Steady := hv.congr rfl rfl
    exact ⟨hpart, hreads.trans ((v.reads_setBuf none).trans hmsg.frame.reads), hmsg.frame.msg_num.trans hnum,
      hmsg.noiseRead hsteady hunset rfl, hrx, hunset', hchecked⟩
  | refused => cases hn
  | waits => cases hn

/-- A message that came in whole, given to noise-c. -/
theorem read_simulated (hphase : w.nc.handshake_phase = .process_phase) (hat : w.AtMessage left)
    (hlast : w.nc.last = 0 ∨ w.nc.last = NOISE_ACTION_READ_MESSAGE ∧
      N.handshakestate_get_action w.noise = NOISE_ACTION_READ_MESSAGE)
    (haction : w.action N = NOISE_ACTION_READ_MESSAGE) (hsteps : MessageSteps N (w.setLast 0) r) :
    Simulated N w left (read_flow r) := by
  have hread := get_action_of_read hlast haction
  have hturn : (w.dialogue left).turn N = (w.dialogue left).read N := turn_of_read hphase hread
  have hat0 := hat.setLast 0
  have hw0 := w.reads_setLast 0
  cases hsteps with
  | gate_ret n v hgate hr => cases hat0.negGate hgate
  | gate_stop n v hgate hn hr =>
    subst hr
    cases hat0.negGate hgate with
    | passed => cases hn
    | refused hpart hreads =>
      refine .ended (d := w.dialogue left) ?_ ((hw0.trans (hreads.trans (v.reads_setBuf none))).shows left) ?_
      · rw [hturn]
        have hpart : Dialogue.negotiation_part (w.dialogue left).msg_num (w.dialogue left).left = .refused := hpart
        unfold Dialogue.read
        rw [hpart]
      · decide
    | waits hpart hreads hv hnum hlater hlast' =>
      have hall := hw0.trans (hreads.trans (v.reads_setBuf none))
      refine .waits ?_ (hall.shows left) ?_
      · intro hnil
        have hpart : Dialogue.negotiation_part (w.dialogue left).msg_num (w.dialogue left).left = .short :=
          hpart hnil
        rw [hturn]
        unfold Dialogue.read
        rw [hpart]
      · intro _
        refine ⟨?_, stands_of_waits hphase hread hall hv hlast'⟩
        rw [hall.dialogue]
        have hnum : v.nc.msg_num = w.nc.msg_num := hnum
        show ({ w.dialogue left with msg_num := v.nc.msg_num } : Dialogue S) = _
        rw [hnum]
        rfl
  | msg_stop n v hgate hn hmsg hr =>
    have hbehind := hat0.behind hgate hn hmsg
    have hpart : Dialogue.negotiation_part w.nc.msg_num left = .behind v.env.rx.bytes := hbehind.part
    cases hbehind.read with
    | message _ hge => omega
    | empty _ hge => omega
    | broken hagain hnone hbroken =>
      obtain ⟨m, u⟩ := r
      obtain rfl : m = NGX_AGAIN := hagain
      refine .waits ?_ ((hw0.trans hbehind.reads).shows left) ?_
      · intro hnil
        rw [hturn]
        exact read_of_short hpart (hnone hnil)
      · intro huncut
        refine absurd ?_ hbroken
        show ComesWhole v.nc.noise_msg v.env.rx
        rw [hbehind.noise_msg]
        exact huncut.message hphase haction _ hbehind.rx
  | rejected n v q b code noise hgate hn hmsg hq hbuf hcall hcode hr =>
    have hbehind := hat0.behind hgate hn hmsg
    have hpart : Dialogue.negotiation_part w.nc.msg_num left = .behind v.env.rx.bytes := hbehind.part
    have hreads := hw0.trans hbehind.reads
    cases hbehind.read with
    | empty hnone => cases hnone.symm.trans hbuf
    | broken hagain => rw [hagain] at hq; cases hq
    | message message _ hbuf' hsize hne hmessage hv =>
      obtain rfl := Option.some.inj (hbuf'.symm.trans hbuf)
      have htaken : message.take (q.2.nc.noise_msg.recv_size.getD 0) = message := by
        rw [hsize]
        exact List.take_length
      rw [htaken, hreads.noise] at hcall
      subst hr
      refine .ended (d := (w.dialogue left).given message (code, noise)) ?_ ?_ (by decide)
      · rw [hturn, read_of_behind hpart hmessage hne hcall, if_pos hcode]
      · refine ⟨rfl, hreads.prologue, hreads.tx, ?_⟩
        rw [htaken]
        exact congrArg (Obs.read_message message code :: ·) hreads.calls
  | accepted n v q b noise hgate hn hmsg hq hbuf hcall hr =>
    have hbehind := hat0.behind hgate hn hmsg
    have hpart : Dialogue.negotiation_part w.nc.msg_num left = .behind v.env.rx.bytes := hbehind.part
    have hreads := hw0.trans hbehind.reads
    have hnum' : q.2.nc.msg_num = next_num w.nc.msg_num := hbehind.msg_num
    cases hbehind.read with
    | empty hnone => cases hnone.symm.trans hbuf
    | broken hagain => rw [hagain] at hq; cases hq
    | message message _ hbuf' hsize hne hmessage hv =>
      obtain rfl := Option.some.inj (hbuf'.symm.trans hbuf)
      have htaken : message.take (q.2.nc.noise_msg.recv_size.getD 0) = message := by
        rw [hsize]
        exact List.take_length
      rw [htaken, hreads.noise] at hcall
      subst hr
      refine .next ?_ (stands_of_accepted (hreads.handshake_phase.trans hphase) hv
        (hnum' ▸ isMessage_next_num _) noise _)
      rw [hturn, read_of_behind hpart hmessage hne hcall, if_neg (not_not.mpr rfl), htaken]
      simp only [dialogue, message_done, hreads.handshake_phase, hreads.noise_role, hreads.noise_ctx,
        hreads.prologue, hreads.mem, hreads.tx, hnum', Dialogue.given, ← hreads.calls]
      rfl

theorem turn_of_write (hphase : w.nc.handshake_phase = .process_phase)
    (haction : N.handshakestate_get_action w.noise = NOISE_ACTION_WRITE_MESSAGE) :
    (w.dialogue left).turn N = (w.dialogue left).write N := by
  unfold Dialogue.turn
  simp only [dialogue, hphase]
  rw [if_pos haction]

theorem message_header_of_isMessage (h : IsMessage w.nc.msg_num) :
    ∃ header, w.message_header = some (header, next_num w.nc.msg_num) := by
  unfold message_header
  rcases h with h | h | h
  all_goals
    rw [h]
    exact ⟨_, rfl⟩

/-- What noise-c makes of a message that is written. -/
theorem write_of_header {header : List UInt8} {next : Nat}
    (hheader : w.message_header = some (header, next)) :
    (w.dialogue left).write N =
      if (N.handshakestate_write_message w.noise).1.1 ≠ NOISE_ERROR_NONE then
        .ended (N.handshakestate_write_message w.noise).1.1 ((w.dialogue left).written N next)
      else .next { (w.dialogue left).written N next with
        tx := w.env.tx ++ (header ++ lenBytes (N.handshakestate_write_message w.noise).1.2.length ++
          (N.handshakestate_write_message w.noise).1.2) } := by
  have hheader : (w.dialogue left).endpoint.message_header = some (header, next) := hheader
  unfold Dialogue.write
  rw [hheader]
  rfl

/-- A message that the socket has taken whole. -/
theorem stands_of_sent (hphase : w.nc.handshake_phase = .process_phase) (hat : w.AtMessage left)
    (hneg : w.nc.neg_data = .unset) {u : Endpoint S} {header message : List UInt8}
    (hheader : w.message_header = some (header, next_num w.nc.msg_num)) (hframe : WriteFrame w v)
    (hcall : N.handshakestate_write_message w.noise = ((NOISE_ERROR_NONE, message), v.noise))
    (htrace : v.trace = .write_message w.nc.msg_num NOISE_ERROR_NONE :: w.trace)
    (hnum : v.nc.msg_num = next_num w.nc.msg_num) (hsend : SendFrame v u) (hlast : u.nc.last = 0)
    (hbuf : u.nc.buf = none)
    (htx : u.env.tx = v.env.tx ++ (header ++ lenBytes message.length ++ message)) :
    (w.dialogue left).write N = .next (u.dialogue left) ∧ u.Stands N left := by
  have hrx : u.env.rx = w.env.rx := by
    rw [hsend.rx, hframe.env]
  have hnc : u.nc = { w.nc with msg_num := next_num w.nc.msg_num, last := 0, buf := none } := by
    rw [hsend.nc, hlast, hbuf, ← hnum, hframe.nc]
  constructor
  · rw [write_of_header hheader, hcall, if_neg (not_not.mpr rfl)]
    refine congrArg Dialogue.Turn.next ?_
    simp only [dialogue, Dialogue.written, hnc, hsend.noise, hsend.prologue, hframe.prologue, hsend.mem,
      hframe.mem, htx, hcall, hsend.trace, htrace]
    rw [hframe.env]
    rfl
  · have hsteady : u.Steady := by
      refine ⟨⟨hsend.events ?_, hsend.allocs.trans (hframe.allocs hat.steady.granted.allocs), ?_⟩,
        hsend.sends ?_, ?_⟩
      · rw [hframe.env]
        exact hat.steady.granted.events
      · rw [hsend.eof, hframe.c]
        exact hat.steady.granted.eof
      · rw [hframe.env]
        exact hat.steady.sends
      · rw [hrx]
        exact hat.steady.live
    have hunset : u.nc.noise_msg = .unset := by
      rw [hnc]
      exact hat.unset
    have hneg' : u.nc.neg_data = .unset := by
      rw [hnc]
      exact hneg
    refine ⟨hsteady, hunset, .message ?_ ⟨hsteady, hbuf, hunset, ?_, ?_, ?_, ?_⟩ (.inl hlast) fun _ => hneg'⟩
    · rw [hnc]
      exact hphase
    · rw [hnc]
      exact isMessage_next_num _
    · intro _
      rw [hneg']
      rfl
    · intro _
      rw [hneg']
      rfl
    · rw [hneg', hrx, hat.left, hneg]

/-- A dialogue that has nothing left to read waits for the next message. -/
theorem turn_of_nothing {left : List UInt8} (hphase : w.nc.handshake_phase = .process_phase)
    (haction : N.handshakestate_get_action w.noise = NOISE_ACTION_READ_MESSAGE) (hnum : IsMessage w.nc.msg_num)
    (hnil : left = []) : (w.dialogue left).turn N = .waits := by
  rw [turn_of_read hphase haction, hnil]
  rcases hnum with hnum | hnum
  · have hpart : Dialogue.negotiation_part w.nc.msg_num [] = .behind [] := by
      unfold Dialogue.negotiation_part
      rw [if_pos hnum]
    exact read_of_short hpart rfl
  · have hshort : Dialogue.negotiation_part (w.dialogue []).msg_num (w.dialogue []).left = .short :=
      negotiation_part_of_short hnum (Nat.zero_le 1)
    unfold Dialogue.read
    rw [hshort]

theorem write_simulated {flow : ControlFlow (Endpoint S) (Int × Endpoint S)} {n : Int} {b : Option Buf}
    (hphase : w.nc.handshake_phase = .process_phase) (hat : w.AtMessage left) (hneg : w.nc.neg_data = .unset)
    (hturn : (w.dialogue left).turn N = (w.dialogue left).write N)
    (hmsg : w.handshake_start_action_write_message N = ok (n, b, v))
    (hfailed : n ≠ NGX_OK → flow = .done (n, v))
    (hsent : n = NGX_OK → ∃ b', b = some b' ∧ SendOutcome N b' v flow) : Simulated N w left flow := by
  obtain ⟨header, hheader⟩ := message_header_of_isMessage hat.num
  obtain ⟨hframe, hout⟩ := write_message_cases hmsg
  cases hout with
  | refused hn _ _ hwhy =>
    rw [hwhy hat.steady.granted.allocs] at hheader
    cases hheader
  | error_message _ hnum =>
    rcases hat.num with h | h | h
    all_goals cases h.symm.trans hnum
  | noise_error code hn hcode _ hcall htrace hnoise =>
    have hne : n ≠ NGX_OK := by
      rw [hn]
      exact fun hzero => hcode (Int.natCast_eq_zero.mp hzero)
    rw [hfailed hne]
    refine .ended (d := (w.dialogue left).written N (next_num w.nc.msg_num)) ?_ ?_ ?_
    · rw [hturn, write_of_header hheader, hcall, if_pos hcode, hn]
    · refine ⟨hnoise, hframe.prologue, ?_, ?_⟩
      · rw [hframe.env]
        rfl
      · rw [htrace, ← hcall]
        rfl
    · rw [hn]
      simp only [NGX_AGAIN]
      omega
  | written header' message next hn hheader' hcall hb htrace hnum =>
    obtain ⟨rfl, rfl⟩ : header = header' ∧ next_num w.nc.msg_num = next := by
      simpa using Option.some.inj (hheader.symm.trans hheader')
    obtain ⟨b', rfl, hsend⟩ := hsent hn
    cases hb
    have hsends : v.env.sends = [] := by
      rw [hframe.env]
      exact hat.steady.sends
    cases hsend with
    | refused _ hevents =>
      refine absurd hevents (not_eventRefused ?_)
      rw [hframe.env]
      exact hat.steady.granted.events
    | blocked _ hblocked => exact absurd hsends hblocked
    | wait hframe' haction hlast hbuf htx _ =>
      obtain ⟨hwrite, hu⟩ := stands_of_sent hphase hat hneg hheader hframe hcall htrace hnum hframe' hlast hbuf
        (htx hsends)
      refine .sent (hturn.trans hwrite) hu ?_
      intro hnil
      cases hu.place with
      | message hphase' hat' =>
        refine turn_of_nothing hphase' (by rw [hframe'.noise]; exact haction) hat'.num ?_
        have hneg' : v.nc.neg_data = .unset := by
          rw [hframe.nc]
          exact hneg
        rw [hat'.left, hnil, hframe'.nc, List.append_nil]
        exact congrArg SizeField.held hneg'
      | header hphase' | behind_len hphase' =>
        rw [hframe'.nc, hframe.nc] at hphase'
        cases hphase.symm.trans hphase'
    | go_on hframe' _ hlast hbuf htx =>
      obtain ⟨hwrite, hu⟩ := stands_of_sent hphase hat hneg hheader hframe hcall htrace hnum hframe' hlast hbuf
        (htx hsends)
      exact .next (hturn.trans hwrite) hu

theorem split_simulated (hphase : w.nc.handshake_phase = .process_phase)
    (haction : N.handshakestate_get_action w.noise = NOISE_ACTION_SPLIT) :
    Simulated N w left (.done (w.split_action N)) := by
  have hturn : (w.dialogue left).turn N = (w.dialogue left).split N := by
    unfold Dialogue.turn
    simp only [dialogue, hphase]
    rw [haction]
    rfl
  unfold Dialogue.split at hturn
  unfold split_action
  dsimp only at hturn ⊢
  change _ = if (N.handshakestate_split w.noise).1 ≠ NOISE_ERROR_NONE then _ else
    if (N.handshakestate_free (N.handshakestate_split w.noise).2).1 ≠ NOISE_ERROR_NONE then _ else _ at hturn
  split_ifs at hturn ⊢ with hsplit hfree
  · exact .ended hturn ⟨rfl, rfl, rfl, rfl⟩ (by decide)
  · exact .ended hturn ⟨rfl, rfl, rfl, rfl⟩ (by decide)
  · exact .ended hturn ⟨rfl, rfl, rfl, rfl⟩ (by decide)

/-- The phase `NGX_NSOC_HANDSHAKE_PROCESS_PHASE`. -/
theorem process_simulated {flow : ControlFlow (Endpoint S) (Int × Endpoint S)}
    (hphase : w.nc.handshake_phase = .process_phase) (hat : w.AtMessage left)
    (hlast : w.nc.last = 0 ∨ w.nc.last = NOISE_ACTION_READ_MESSAGE ∧
      N.handshakestate_get_action w.noise = NOISE_ACTION_READ_MESSAGE)
    (hwrite : N.handshakestate_get_action w.noise = NOISE_ACTION_WRITE_MESSAGE → w.nc.neg_data = .unset)
    (hstep : ProcessStep N w flow) : Simulated N w left flow := by
  have hidle : ∀ {code : Int}, code ≠ NOISE_ACTION_READ_MESSAGE → w.action N = code →
      N.handshakestate_get_action w.noise = code := by
    intro code hne haction
    rcases hlast with hzero | ⟨hread, -⟩
    · rwa [action, if_neg (not_not.mpr hzero)] at haction
    · rw [action, hread, if_pos (by decide)] at haction
      exact absurd haction.symm hne
  cases hstep with
  | write_failed haction _ hmsg hn =>
    have hget := hidle (by decide) haction
    exact write_simulated hphase hat (hwrite hget) (turn_of_write hphase hget) hmsg (fun _ => rfl)
      fun hok => absurd hok hn
  | write_new haction _ hmsg =>
    have hget := hidle (by decide) haction
    exact write_simulated hphase hat (hwrite hget) (turn_of_write hphase hget) hmsg (fun hne => absurd rfl hne)
      fun _ => ⟨_, rfl, send_action_cases N _ _⟩
  | write_old haction hlast' =>
    rcases hlast with hzero | ⟨hread, -⟩
    · cases hzero.symm.trans hlast'
    · cases hread.symm.trans hlast'
  | @read_stopped r haction hsteps hn =>
    have hsim := read_simulated hphase hat hlast haction hsteps
    rwa [read_flow, if_neg hn] at hsim
  | @read_done r haction hsteps hn =>
    have hsim := read_simulated hphase hat hlast haction hsteps
    rwa [read_flow, if_pos hn] at hsim
  | split haction => exact split_simulated hphase (hidle (by decide) haction)
  | failed haction =>
    obtain ⟨hnot, hnot', hnot''⟩ := haction
    have hget : w.action N = N.handshakestate_get_action w.noise := by
      rcases hlast with hzero | ⟨hread, -⟩
      · rw [action, if_neg (not_not.mpr hzero)]
      · rw [action, hread, if_pos (by decide)] at hnot'
        exact absurd rfl hnot'
    rw [hget] at hnot hnot' hnot''
    refine .ended (d := w.dialogue left) ?_ (w.shows_dialogue left) (by decide)
    unfold Dialogue.turn
    simp only [dialogue, hphase]
    rw [if_neg hnot, if_neg hnot', if_neg hnot'']

end

end Endpoint

end ngx_nsoc
