import NoiseSocket.Handler.Handshake.Leading
import NoiseSocket.NoiseProtocol.Frame

open Exec Exec.Result

namespace ngx_nsoc

variable {S : Type}

/-- noise-c in the state `s` writes a message that noise-c in the state `t` accepts. -/
structure NoiseC.Passes (N : NoiseC S) (s t : S) (message : List UInt8) (s' t' : S) : Prop where
  writes : N.handshakestate_get_action s = NOISE_ACTION_WRITE_MESSAGE
  reads : N.handshakestate_get_action t = NOISE_ACTION_READ_MESSAGE
  written : N.handshakestate_write_message s = ((NOISE_ERROR_NONE, message), s')
  accepted : N.handshakestate_read_message message t = (NOISE_ERROR_NONE, t')
  ne : message ≠ []
  short : message.length < 65536

/-- noise-c ends a handshake and keeps the ciphers. -/
structure NoiseC.Splits (N : NoiseC S) (s s' : S) : Prop where
  action : N.handshakestate_get_action s = NOISE_ACTION_SPLIT
  split : ∃ s₁, N.handshakestate_split s = (NOISE_ERROR_NONE, s₁) ∧
    N.handshakestate_free s₁ = (NOISE_ERROR_NONE, s')

/-- A handshake message as it goes out. -/
def handshake_frame (neg message : List UInt8) : List UInt8 :=
  Endpoint.lenBytes neg.length ++ neg ++ (Endpoint.lenBytes message.length ++ message)

namespace Endpoint

/-- An end that waits for its next message, of which it has read nothing. -/
structure Awaiting (N : NoiseC S) (w : Endpoint S) : Prop where
  granted : w.Granted
  phase : w.nc.handshake_phase = .process_phase
  num : w.nc.msg_num = NGX_NSOC_2MSG_OK ∨ w.nc.msg_num = NGX_NSOC_3MSG
  neg : w.nc.neg_data = .unset
  msg : w.nc.noise_msg = .unset
  buf : w.nc.buf = none
  last : w.nc.last = 0 ∨ w.nc.last = NOISE_ACTION_READ_MESSAGE
  action : N.handshakestate_get_action w.noise = NOISE_ACTION_READ_MESSAGE

section

variable {N : NoiseC S} {w v : Endpoint S} {fuel : Nat} {left : Net.Incoming} {message : List UInt8}
  {s t s' t' : S}

theorem Awaiting.reads (h : Awaiting N w) : w.action N = NOISE_ACTION_READ_MESSAGE := by
  obtain hlast | hlast := h.last
  · rw [Endpoint.action, if_neg (not_not.mpr hlast)]
    exact h.action
  · rw [Endpoint.action, if_pos (by rw [hlast]; decide), hlast]

theorem process_phase_reading {n : Int} (haction : w.action N = NOISE_ACTION_READ_MESSAGE)
    (hread : (w.setLast 0).handshake_start_action_read_message N fuel = ok (n, v)) :
    w.process_phase N fuel = ok (if n ≠ NGX_OK then .done (n, v) else .cont v) := by
  rw [process_phase, if_neg (by rw [haction]; decide), if_pos haction, hread, bind_ok]
  dsimp only
  split_ifs <;> rfl

theorem body_of_process_phase (hphase : w.nc.handshake_phase = .process_phase) :
    w.do_handshake_process_body N fuel = w.process_phase N fuel := by
  simp only [do_handshake_process_body, hphase]

/-- A call while nothing has come in. -/
theorem Awaiting.again (h : Awaiting N w) (hfuel : 2 ≤ fuel)
    (hrecv : w.env.rx.recv NGX_NSOC_LEN_FIELD_SIZE = (.again, left)) :
    ∃ v : Endpoint S, w.do_handshake_process N fuel = ok (NGX_AGAIN, v) ∧ Awaiting N v ∧
      v.Like ((w.leaving left).setLast NOISE_ACTION_READ_MESSAGE) := by
  obtain ⟨v, hread, hv⟩ := read_message_again (N := N) (w := w.setLast 0) hfuel
    ⟨h.granted.events, h.granted.allocs, h.granted.eof⟩ h.num h.neg h.buf hrecv
  have hbody := process_phase_reading h.reads hread
  rw [if_pos (by decide), ← body_of_process_phase h.phase] at hbody
  have hlike : v.Like ((w.leaving left).setLast NOISE_ACTION_READ_MESSAGE) := hv
  refine ⟨v, loop_of_done (by omega) hbody, ?_, hlike⟩
  refine ⟨Granted.of_like hlike h.granted.events h.granted.allocs h.granted.eof, ?_, ?_, ?_, ?_, ?_, ?_, ?_⟩
  · rw [hlike.nc]
    exact h.phase
  · rw [hlike.nc]
    exact h.num
  · rw [hlike.nc]
    exact h.neg
  · rw [hlike.nc]
    exact h.msg
  · rw [hlike.nc]
    exact h.buf
  · rw [hlike.nc]
    exact .inr rfl
  · rw [hlike.noise]
    exact h.action

/-- A pass that reads the message which has come in. -/
theorem Awaiting.pass (h : Awaiting N w) (hfuel : 2 ≤ fuel) (hne : message ≠ [])
    (hshort : message.length < 65536) (hlead : Leads (handshake_frame [] message) left w)
    (haccept : N.handshakestate_read_message message w.noise = (NOISE_ERROR_NONE, t')) :
    ∃ v : Endpoint S, w.do_handshake_process_body N fuel = ok (.cont v) ∧ v.Like
      { w.leaving left with
        noise := t'
        nc := { w.nc with
          buf := none, last := 0, msg_num := next_num w.nc.msg_num, noise_msg := .unset, neg_data := .unset } } := by
  have hlead' : Leads (lenBytes 0 ++ (lenBytes message.length ++ message)) left (w.setLast 0) := hlead
  obtain ⟨v, hread, hv⟩ := read_message_leading (w := w.setLast 0) hfuel
    ⟨h.granted.events, h.granted.allocs, h.granted.eof⟩ h.num h.neg h.msg h.buf hne hshort hlead' haccept
  have hbody := process_phase_reading h.reads hread
  rw [if_neg (by decide), ← body_of_process_phase h.phase] at hbody
  exact ⟨v, hbody, hv⟩

/-- The message goes out as a whole. -/
theorem send_action_whole {b : Buf} (hgranted : w.Granted)
    (htakes : w.takes_all (b.bytes.drop b.pos).length = true) :
    ∃ sends, ∃ v : Endpoint S, v.Like { w with
      nc := { w.nc with last := 0, buf := none }
      env := { w.env with sends, tx := w.env.tx ++ b.bytes.drop b.pos } } ∧
    w.send_action N b =
      if N.handshakestate_get_action w.noise = NOISE_ACTION_READ_MESSAGE then .done (NGX_AGAIN, v)
      else .cont v := by
  obtain ⟨sends, hsend⟩ := ngx_send_all (w := w.setLast 0) htakes
  have hwhole : ¬(((b.bytes.drop b.pos).length : Int) = NGX_AGAIN ∨
      ((b.bytes.drop b.pos).length : Int) < (b.bytes.drop b.pos).length) := by
    simp only [NGX_AGAIN]
    omega
  refine ⟨sends, ?_⟩
  simp only [send_action, hsend, if_neg hwhole]
  generalize hu : ((((({ w.setLast 0 with
    env := { (w.setLast 0).env with sends, tx := (w.setLast 0).env.tx ++ b.bytes.drop b.pos } } :
      Endpoint S).setHandlers .handshake_handler).setReadReady false).setBuf none)) = u
  have hlike : u.Like { w with
      nc := { w.nc with last := 0, buf := none }
      env := { w.env with sends, tx := w.env.tx ++ b.bytes.drop b.pos } } := by
    rw [← hu]
    rfl
  have hu_granted : (u.setReadReady false).Granted := by
    rw [← hu]
    exact ⟨hgranted.events, hgranted.allocs, hgranted.eof⟩
  have hnoise : u.noise = w.noise := hlike.noise
  rw [hnoise]
  by_cases haction : N.handshakestate_get_action w.noise = NOISE_ACTION_READ_MESSAGE
  · refine ⟨((u.setReadReady false).setReadTimer true).setWriteTimer false, hlike, ?_⟩
    simp only [if_pos haction, hu_granted.ngx_handle_event, ne_eq, not_true_eq_false, if_false]
  · exact ⟨u.setReadTimer false, hlike, by rw [if_neg haction, if_neg haction]⟩

/-- A pass that writes a message. -/
theorem write_pass {header : List UInt8} {next : Nat} (fuel : Nat) (hgranted : w.Granted)
    (hphase : w.nc.handshake_phase = .process_phase) (hlast : w.nc.last = 0)
    (hnum : w.nc.msg_num ≠ NGX_NSOC_2MSG_ERR) (hheader : w.message_header = some (header, next))
    (haction : N.handshakestate_get_action w.noise = NOISE_ACTION_WRITE_MESSAGE)
    (hwrite : N.handshakestate_write_message w.noise = ((NOISE_ERROR_NONE, message), s'))
    (htakes : w.takes_all (header ++ lenBytes message.length ++ message).length = true) :
    ∃ sends, ∃ v : Endpoint S, v.Like { w with
      noise := s'
      nc := { w.nc with last := 0, buf := none, msg_num := next }
      env := { w.env with sends, tx := w.env.tx ++ (header ++ lenBytes message.length ++ message) } } ∧
    w.do_handshake_process_body N fuel = ok
      (if N.handshakestate_get_action s' = NOISE_ACTION_READ_MESSAGE then .done (NGX_AGAIN, v)
      else .cont v) := by
  have hcall : w.handshake_start_action_write_message N = ok (NGX_OK,
      some ⟨header ++ lenBytes message.length ++ message, 0, message_room (header.length - 2)⟩,
      { w with noise := s', nc := { w.nc with msg_num := next },
               trace := .write_message w.nc.msg_num NOISE_ERROR_NONE :: w.trace }) := by
    unfold handshake_start_action_write_message
    simp only [hgranted.ngx_alloc, not_true_eq_false, if_false, if_neg hnum, hheader]
    rw [write_noise_message_of_ok (by exact congrArg (fun call => call.1.1) hwrite)]
    simp only [log, setMsgNum, hwrite]
  obtain ⟨sends, v, hlike, hsend⟩ := send_action_whole (N := N)
    (w := { w with noise := s', nc := { w.nc with msg_num := next },
                   trace := .write_message w.nc.msg_num NOISE_ERROR_NONE :: w.trace })
    (b := ⟨header ++ lenBytes message.length ++ message, 0, message_room (header.length - 2)⟩)
    ⟨hgranted.events, hgranted.allocs, hgranted.eof⟩ htakes
  refine ⟨sends, v, hlike, ?_⟩
  have hdue : w.action N = NOISE_ACTION_WRITE_MESSAGE := by
    rw [Endpoint.action, if_neg (not_not.mpr hlast)]
    exact haction
  rw [body_of_process_phase hphase, process_phase, if_pos hdue, write_action, if_pos hlast, hcall]
  simp only [bind_ok, ne_eq, not_true_eq_false, if_false, hsend]

/-- A pass that ends the handshake. -/
theorem split_pass (fuel : Nat) (hphase : w.nc.handshake_phase = .process_phase) (hlast : w.nc.last = 0)
    (hsplits : N.Splits w.noise s') :
    ∃ v : Endpoint S, w.do_handshake_process_body N fuel = ok (.done (NGX_OK, v)) ∧ v.Like { w with
      noise := s'
      nc := { w.nc with handshake_phase := .end_phase, buf := none, handshaked := true }
      c := { w.c with transport := .noise } } := by
  obtain ⟨haction, s₁, hsplit, hfree⟩ := hsplits
  have hdue : w.action N = NOISE_ACTION_SPLIT := by
    rw [Endpoint.action, if_neg (not_not.mpr hlast)]
    exact haction
  rw [body_of_process_phase hphase, process_phase, if_neg (by rw [hdue]; decide),
    if_neg (by rw [hdue]; decide), if_pos hdue, split_action]
  simp only [hsplit, hfree, ne_eq, not_true_eq_false, if_false]
  exact ⟨_, rfl, rfl⟩

/-- The end of the first phase. -/
theorem start_handshake_whole {u : Endpoint S} {n : Int} (hn : n ≠ NGX_ERROR)
    (hinit : ngx_noise_protocol.init_handshake N w = ok (n, u)) :
    ∃ v : Endpoint S, w.start_handshake N = ok (.cont v) ∧ v.Like { w with
      noise := (N.handshakestate_start u.noise).2
      nc := { w.nc with buf := none, handshake_phase := .process_phase, last := 0 } } := by
  have hframe := (init_handshake_cases hinit).1
  simp only [start_handshake, hinit, bind_ok, if_neg hn]
  refine ⟨_, rfl, ?_⟩
  show Kernel.mk _ _ _ _ _ _ _ _ = Kernel.mk _ _ _ _ _ _ _ _
  simp only [setBuf, hframe.c, hframe.nc, hframe.prologue, hframe.mem, hframe.env]

/-- An end on which nothing has been read and nothing has been written. -/
structure Unstarted (role : Role) (w : Endpoint S) : Prop where
  granted : w.Granted
  phase : w.nc.handshake_phase = .none_phase
  role : w.nc.noise_role = role
  num : w.nc.msg_num = NGX_NSOC_1MSG
  neg : w.nc.neg_data = .unset
  msg : w.nc.noise_msg = .unset
  buf : w.nc.buf = none

theorem body_of_none_phase (hphase : w.nc.handshake_phase = .none_phase)
    (hstart : w.none_phase N fuel = ok (.cont v)) (hv : v.nc.handshake_phase = .process_phase) :
    w.do_handshake_process_body N fuel = v.do_handshake_process_body N fuel := by
  rw [body_of_process_phase hv]
  simp only [do_handshake_process_body, hphase, hstart, bind_ok]

/-- The first call of a client: it writes the first message and waits for the second one. -/
theorem Unstarted.client_call {u : Endpoint S} {n : Int} (h : Unstarted .client w) (hfuel : 0 < fuel)
    (hprologue : w.prologue = proxy_prologue) (hn : n ≠ NGX_ERROR)
    (hinit : ngx_noise_protocol.init_handshake N w = ok (n, u))
    (hpasses : N.Passes (N.handshakestate_start u.noise).2 t message s' t')
    (hthen : N.handshakestate_get_action s' = NOISE_ACTION_READ_MESSAGE)
    (htakes : w.takes_all (handshake_frame proxy_prologue.header.bytes message).length = true) :
    ∃ sends, ∃ v : Endpoint S, w.do_handshake_process N fuel = ok (NGX_AGAIN, v) ∧ v.Like { w with
      noise := s'
      nc := { w.nc with
        handshake_phase := .process_phase, last := 0, buf := none, msg_num := NGX_NSOC_2MSG_OK }
      env := { w.env with
        sends, tx := w.env.tx ++ handshake_frame proxy_prologue.header.bytes message } } := by
  obtain ⟨v₁, hstart, hv₁⟩ := start_handshake_whole hn hinit
  have hnone : w.none_phase N fuel = ok (.cont v₁) := by
    simp only [none_phase, h.role, hstart]
  have hphase : v₁.nc.handshake_phase = .process_phase := by rw [hv₁.nc]
  have hnum : v₁.nc.msg_num = NGX_NSOC_1MSG := by
    rw [hv₁.nc]
    exact h.num
  have hheader : v₁.message_header = some (proxy_prologue.headerBytes, NGX_NSOC_2MSG_OK) := by
    rw [message_header, if_pos hnum, hv₁.prologue, hprologue]
  have hlast : v₁.nc.last = 0 := by rw [hv₁.nc]
  have hframe : proxy_prologue.headerBytes ++ lenBytes message.length ++ message =
      handshake_frame proxy_prologue.header.bytes message := List.append_assoc _ _ _
  obtain ⟨sends, v, hv, hwrite⟩ := write_pass (N := N) (w := v₁) fuel
    (Granted.of_like hv₁ h.granted.events h.granted.allocs h.granted.eof) hphase hlast
    (by rw [hnum]; decide) hheader (by rw [hv₁.noise]; exact hpasses.writes)
    (by rw [hv₁.noise]; exact hpasses.written) (by rw [hframe, takes_all, hv₁.env]; exact htakes)
  rw [if_pos hthen, ← body_of_none_phase h.phase hnone hphase] at hwrite
  refine ⟨sends, v, loop_of_done hfuel hwrite, hv.trans ?_⟩
  rw [hframe]
  exact hv₁.map (fun k => { k with
    noise := s'
    nc := { k.nc with last := 0, buf := none, msg_num := NGX_NSOC_2MSG_OK }
    env := { k.env with sends, tx := k.env.tx ++ handshake_frame proxy_prologue.header.bytes message } }) rfl rfl

/-- A call of a server to which nothing has come in. -/
theorem Unstarted.again (h : Unstarted .server w) (hfuel : 2 ≤ fuel)
    (hrecv : w.env.rx.recv NGX_NSOC_LEN_FIELD_SIZE = (.again, left)) :
    ∃ v : Endpoint S, w.do_handshake_process N fuel = ok (NGX_AGAIN, v) ∧ Unstarted .server v ∧
      v.Like ((w.leaving left).setLast NOISE_ACTION_READ_MESSAGE) := by
  obtain ⟨v, hread, hv⟩ := read_negotiation_again NGX_NSOC_1MSG_NEG_DATA_SIZE hfuel h.granted h.neg
    hrecv
  have hbody : w.do_handshake_process_body N fuel = ok (.done (NGX_AGAIN, v)) := by
    simp only [do_handshake_process_body, h.phase, none_phase, h.role, hread, bind_ok]
    rfl
  refine ⟨v, loop_of_done (by omega) hbody, ?_, hv⟩
  refine ⟨Granted.of_like hv h.granted.events h.granted.allocs h.granted.eof, ?_, ?_, ?_, ?_, ?_, ?_⟩
  · rw [hv.nc]
    exact h.phase
  · rw [hv.nc]
    exact h.role
  · rw [hv.nc]
    exact h.num
  · rw [hv.nc]
    exact h.neg
  · rw [hv.nc]
    exact h.msg
  · rw [hv.nc]
    exact h.buf

/-- The header that a server has when the first message of the proxy has come in. -/
def headed (w : Endpoint S) : Endpoint S :=
  { w with prologue := { w.prologue with header := proxy_prologue.header } }

/-- A server reads the header of the first message and starts the handshake. -/
theorem Unstarted.server_start {u : Endpoint S} {n : Int} (h : Unstarted .server w) (hfuel : 2 ≤ fuel)
    (hn : n ≠ NGX_ERROR) (hinit : ngx_noise_protocol.init_handshake N w.headed = ok (n, u))
    (hlead : Leads (lenBytes proxy_prologue.header.bytes.length ++ proxy_prologue.header.bytes) left w) :
    ∃ v : Endpoint S, w.none_phase N fuel = ok (.cont v) ∧ v.Like { w.headed.leaving left with
      noise := (N.handshakestate_start u.noise).2
      nc := { w.nc with
        handshake_phase := .process_phase, last := 0, buf := none, neg_data := .known 6 } } := by
  obtain ⟨v₁, hread, hv₁⟩ := read_negotiation_leading _ hfuel h.granted h.neg h.buf
    (show proxy_prologue.header.bytes.length < 65536 by decide) hlead
  have hkeys : ngx_noise_protocol.SameKeys w.headed
      { v₁ with prologue := { v₁.prologue with header := proxy_prologue.header } } := by
    refine ⟨hv₁.noise, ?_, hv₁.mem, ?_, ?_⟩
    · show ({ v₁.prologue with header := proxy_prologue.header } : PrologueData) = _
      rw [hv₁.prologue]
      exact rfl
    · show v₁.nc.noise_ctx = w.nc.noise_ctx
      rw [hv₁.nc]
    · show v₁.nc.noise_role = w.nc.noise_role
      rw [hv₁.nc]
  obtain ⟨u', hinit', hu'⟩ : ∃ u', ngx_noise_protocol.init_handshake N
      { v₁ with prologue := { v₁.prologue with header := proxy_prologue.header } } = ok (n, u') ∧
      u'.noise = u.noise := by
    have hsame := ngx_noise_protocol.init_handshake_same N hkeys
    rw [hinit] at hsame
    generalize ngx_noise_protocol.init_handshake N
      { v₁ with prologue := { v₁.prologue with header := proxy_prologue.header } } = r at hsame
    cases hsame with
    | ok obs hkeys' htrace htrace' => exact ⟨_, rfl, hkeys'.noise⟩
  obtain ⟨v, hstart, hv⟩ := start_handshake_whole hn hinit'
  have hbuf : v₁.nc.buf = some ⟨proxy_prologue.header.bytes, 0, 6⟩ := by
    rw [hv₁.nc]
    rfl
  refine ⟨v, ?_, ?_⟩
  · have hread : w.read_negotiation fuel NGX_NSOC_1MSG_NEG_DATA_SIZE = ok (6, v₁) := hread
    simp only [none_phase, h.role, hread, bind_ok]
    rw [if_neg (by decide), hbuf]
    exact hstart
  · rw [hu'] at hv
    exact hv.trans (hv₁.map (fun k => { k with
      noise := (N.handshakestate_start u.noise).2
      prologue := { k.prologue with header := proxy_prologue.header }
      nc := { k.nc with buf := none, handshake_phase := .process_phase, last := 0 } }) rfl rfl)

/-- The first message of a server has been read: the second one is due. -/
theorem server_first_pass (hfuel : 2 ≤ fuel) (hgranted : w.Granted)
    (hphase : w.nc.handshake_phase = .process_phase) (hlast : w.nc.last = 0)
    (hnum : w.nc.msg_num = NGX_NSOC_1MSG) (hunset : w.nc.noise_msg = .unset)
    (hlead : Leads (lenBytes message.length ++ message) left w) (hpasses : N.Passes s w.noise message s' t') :
    ∃ v : Endpoint S, w.do_handshake_process_body N fuel = ok (.cont v) ∧ v.Like
      { w.leaving left with
        noise := t'
        nc := { w.nc with
          buf := none, last := 0, msg_num := NGX_NSOC_2MSG_OK, noise_msg := .unset, neg_data := .unset } } := by
  have hdue : w.action N = NOISE_ACTION_READ_MESSAGE := by
    rw [Endpoint.action, if_neg (not_not.mpr hlast)]
    exact hpasses.reads
  obtain ⟨v, hread, hv⟩ := read_first_message_leading (w := w.setLast 0) hfuel
    ⟨hgranted.events, hgranted.allocs, hgranted.eof⟩ hnum hunset hpasses.ne hpasses.short hlead hpasses.accepted
  have hbody := process_phase_reading hdue hread
  rw [if_neg (by decide), ← body_of_process_phase hphase] at hbody
  exact ⟨v, hbody, hv⟩

/-- The header of the second message and of the third one says that there is no negotiation data. -/
theorem message_header_later (hnum : w.nc.msg_num = NGX_NSOC_2MSG_OK ∨ w.nc.msg_num = NGX_NSOC_3MSG) :
    w.nc.msg_num ≠ NGX_NSOC_2MSG_ERR ∧ w.message_header = some (lenBytes 0, next_num w.nc.msg_num) := by
  obtain htwo | hthree := hnum
  · refine ⟨by rw [htwo]; decide, ?_⟩
    rw [message_header, if_neg (by rw [htwo]; decide), if_pos htwo, htwo]
    rfl
  · refine ⟨by rw [hthree]; decide, ?_⟩
    rw [message_header, if_neg (by rw [hthree]; decide), if_neg (by rw [hthree]; decide), if_pos hthree, hthree]
    rfl

/-- A pass that writes the second message or the third one. -/
theorem write_later_pass (fuel : Nat) (hgranted : w.Granted) (hphase : w.nc.handshake_phase = .process_phase)
    (hlast : w.nc.last = 0) (hnum : w.nc.msg_num = NGX_NSOC_2MSG_OK ∨ w.nc.msg_num = NGX_NSOC_3MSG)
    (hpasses : N.Passes w.noise t message s' t')
    (htakes : w.takes_all (handshake_frame [] message).length = true) :
    ∃ sends, ∃ v : Endpoint S, v.Like { w with
      noise := s'
      nc := { w.nc with last := 0, buf := none, msg_num := next_num w.nc.msg_num }
      env := { w.env with sends, tx := w.env.tx ++ handshake_frame [] message } } ∧
    w.do_handshake_process_body N fuel = ok
      (if N.handshakestate_get_action s' = NOISE_ACTION_READ_MESSAGE then .done (NGX_AGAIN, v)
      else .cont v) := by
  obtain ⟨herr, hheader⟩ := message_header_later hnum
  have hframe : lenBytes 0 ++ lenBytes message.length ++ message = handshake_frame [] message :=
    List.append_assoc _ _ _
  have hwrites := write_pass (N := N) fuel hgranted hphase hlast herr hheader hpasses.writes
    hpasses.written (by rw [hframe]; exact htakes)
  rwa [hframe] at hwrites

/-- The call of a server that answers the first message. -/
theorem Unstarted.server_call {u : Endpoint S} {n : Int} {first second : List UInt8} {s₁ t₁ s₂ t₂ : S}
    (h : Unstarted .server w) (hfuel : 2 ≤ fuel) (hn : n ≠ NGX_ERROR)
    (hinit : ngx_noise_protocol.init_handshake N w.headed = ok (n, u))
    (hfirst : N.Passes s (N.handshakestate_start u.noise).2 first s₁ t₁)
    (hsecond : N.Passes t₁ s₁ second t₂ s₂)
    (hthen : N.handshakestate_get_action t₂ = NOISE_ACTION_READ_MESSAGE)
    (hlead : Leads (handshake_frame proxy_prologue.header.bytes first) left w)
    (htakes : w.takes_all (handshake_frame [] second).length = true) :
    ∃ sends, ∃ v : Endpoint S, w.do_handshake_process N fuel = ok (NGX_AGAIN, v) ∧ v.Like
      { w.headed with
        noise := t₂
        nc := { w.nc with
          handshake_phase := .process_phase, last := 0, buf := none, msg_num := NGX_NSOC_3MSG,
          noise_msg := .unset, neg_data := .unset }
        env := { w.env with
          rx := left, sends, tx := w.env.tx ++ handshake_frame [] second } } := by
  obtain ⟨k, rfl⟩ : ∃ k, fuel = k + 1 := ⟨fuel - 1, by omega⟩
  obtain ⟨between, hheader, hrest⟩ := hlead.split
  obtain ⟨v₀, hstart, hv₀⟩ := h.server_start hfuel hn hinit hheader
  have hv₀_noise : v₀.noise = (N.handshakestate_start u.noise).2 := hv₀.noise
  have hv₀_rx : v₀.env.rx = between := by
    rw [hv₀.env]
    rfl
  have hfirst' : N.Passes s v₀.noise first s₁ t₁ := by
    rw [hv₀_noise]
    exact hfirst
  obtain ⟨v₁, hread, hv₁⟩ := server_first_pass hfuel
    (Granted.of_like hv₀ h.granted.events h.granted.allocs h.granted.eof) (by rw [hv₀.nc]) (by rw [hv₀.nc])
    (by rw [hv₀.nc]; exact h.num) (by rw [hv₀.nc]; exact h.msg) (hrest _ hv₀_rx) hfirst'
  have hv₁' : v₁.Like { w.headed with
      noise := t₁
      nc := { w.nc with
        handshake_phase := .process_phase, last := 0, buf := none, msg_num := NGX_NSOC_2MSG_OK,
        noise_msg := .unset, neg_data := .unset }
      env := { w.env with rx := left } } :=
    hv₁.trans (hv₀.map (fun k => { k with
      noise := t₁
      nc := { k.nc with
        buf := none, last := 0, msg_num := NGX_NSOC_2MSG_OK, noise_msg := .unset, neg_data := .unset }
      env := { k.env with rx := left } }) rfl rfl)
  have hv₁_noise : v₁.noise = t₁ := hv₁'.noise
  have hsecond' : N.Passes v₁.noise s₁ second t₂ s₂ := by
    rw [hv₁_noise]
    exact hsecond
  obtain ⟨sends, v, hv, hwrite⟩ := write_later_pass (k + 1)
    (Granted.of_like hv₁' h.granted.events h.granted.allocs h.granted.eof) (by rw [hv₁'.nc]) (by rw [hv₁'.nc])
    (by rw [hv₁'.nc]; exact .inl rfl) hsecond' (by rw [takes_all, hv₁'.env]; exact htakes)
  rw [if_pos hthen] at hwrite
  have hstarted := body_of_none_phase (N := N) h.phase hstart (by rw [hv₀.nc])
  rw [hread] at hstarted
  refine ⟨sends, v, ?_, hv.trans ?_⟩
  · rw [do_handshake_process, loop_of_cont hstarted]
    exact loop_of_done (by omega) hwrite
  · have hnum : next_num v₁.nc.msg_num = NGX_NSOC_3MSG := by
      rw [hv₁'.nc]
      rfl
    rw [hnum]
    exact hv₁'.map (fun k => { k with
      noise := t₂
      nc := { k.nc with last := 0, buf := none, msg_num := NGX_NSOC_3MSG }
      env := { k.env with sends, tx := k.env.tx ++ handshake_frame [] second } }) rfl rfl

/-- The handshake of an end is over. -/
def finished (w : Endpoint S) (noise : S) : Endpoint S :=
  { w with
    noise
    nc := { w.nc with
      handshake_phase := .end_phase, last := 0, buf := none, msg_num := NGX_NSOC_1MSG,
      noise_msg := .unset, neg_data := .unset, handshaked := true }
    c := { w.c with transport := .noise } }

/-- The call of a server that reads the third message. -/
theorem Awaiting.server_call {t₃ : S} (h : Awaiting N w) (hfuel : 2 ≤ fuel) (hnum : w.nc.msg_num = NGX_NSOC_3MSG)
    (hpasses : N.Passes s w.noise message s' t') (hsplits : N.Splits t' t₃)
    (hlead : Leads (handshake_frame [] message) left w) :
    ∃ v : Endpoint S, w.do_handshake_process N fuel = ok (NGX_OK, v) ∧
      v.Like ((w.finished t₃).leaving left) := by
  obtain ⟨k, rfl⟩ : ∃ k, fuel = k + 1 := ⟨fuel - 1, by omega⟩
  obtain ⟨v₁, hread, hv₁⟩ := h.pass hfuel hpasses.ne hpasses.short hlead hpasses.accepted
  have hv₁_noise : v₁.noise = t' := hv₁.noise
  have hsplits' : N.Splits v₁.noise t₃ := by
    rw [hv₁_noise]
    exact hsplits
  obtain ⟨v, hend, hv⟩ := split_pass (k + 1) (by rw [hv₁.nc]; exact h.phase) (by rw [hv₁.nc]) hsplits'
  refine ⟨v, ?_, hv.trans ?_⟩
  · rw [do_handshake_process, loop_of_cont hread]
    exact loop_of_done (by omega) hend
  · have hnext : next_num w.nc.msg_num = NGX_NSOC_1MSG := by
      rw [hnum]
      rfl
    rw [hnext] at hv₁
    exact hv₁.map (fun k => { k with
      noise := t₃
      nc := { k.nc with handshake_phase := .end_phase, buf := none, handshaked := true }
      transport := .noise }) rfl rfl

/-- The call of a client that reads the second message and writes the third one. -/
theorem Awaiting.client_call {second third : List UInt8} {t₁ s₂ t₂ s₃ t₃ s₄ : S} (h : Awaiting N w)
    (hfuel : 3 ≤ fuel) (hnum : w.nc.msg_num = NGX_NSOC_2MSG_OK) (hsecond : N.Passes t₁ w.noise second t₂ s₂)
    (hthird : N.Passes s₂ t₂ third s₃ t₃) (hsplits : N.Splits s₃ s₄)
    (hlead : Leads (handshake_frame [] second) left w)
    (htakes : w.takes_all (handshake_frame [] third).length = true) :
    ∃ sends, ∃ v : Endpoint S, w.do_handshake_process N fuel = ok (NGX_OK, v) ∧ v.Like
      { w.finished s₄ with
        env := { w.env with rx := left, sends, tx := w.env.tx ++ handshake_frame [] third } } := by
  obtain ⟨k, rfl⟩ : ∃ k, fuel = k + 2 := ⟨fuel - 2, by omega⟩
  obtain ⟨v₁, hread, hv₁⟩ := h.pass (show 2 ≤ k + 2 by omega) hsecond.ne hsecond.short hlead hsecond.accepted
  have hv₁_noise : v₁.noise = s₂ := hv₁.noise
  have hv₁_num : v₁.nc.msg_num = NGX_NSOC_3MSG := by
    rw [hv₁.nc]
    dsimp only
    rw [hnum]
    rfl
  have hthird' : N.Passes v₁.noise t₂ third s₃ t₃ := by
    rw [hv₁_noise]
    exact hthird
  obtain ⟨sends, v₂, hv₂, hwrite⟩ := write_later_pass (k + 2)
    (Granted.of_like hv₁ h.granted.events h.granted.allocs h.granted.eof) (by rw [hv₁.nc]; exact h.phase)
    (by rw [hv₁.nc]) (.inr hv₁_num) hthird' (by rw [takes_all, hv₁.env]; exact htakes)
  have hgo : N.handshakestate_get_action s₃ ≠ NOISE_ACTION_READ_MESSAGE := by
    rw [hsplits.action]
    decide
  rw [if_neg hgo] at hwrite
  have hv₂_noise : v₂.noise = s₃ := hv₂.noise
  have hsplits' : N.Splits v₂.noise s₄ := by
    rw [hv₂_noise]
    exact hsplits
  obtain ⟨v, hend, hv⟩ := split_pass (k + 2) (by rw [hv₂.nc, hv₁.nc]; exact h.phase) (by rw [hv₂.nc]) hsplits'
  refine ⟨sends, v, ?_, hv.trans ?_⟩
  · rw [do_handshake_process, loop_of_cont hread, loop_of_cont hwrite]
    exact loop_of_done (by omega) hend
  · have hnext : next_num v₁.nc.msg_num = NGX_NSOC_1MSG := by
      rw [hv₁_num]
      rfl
    rw [hnext] at hv₂
    have hv₂' : v₂.Like { w with
        noise := s₃
        nc := { w.nc with
          last := 0, buf := none, msg_num := NGX_NSOC_1MSG, noise_msg := .unset, neg_data := .unset }
        env := { w.env with rx := left, sends, tx := w.env.tx ++ handshake_frame [] third } } :=
      hv₂.trans (hv₁.map (fun k => { k with
        noise := s₃
        nc := { k.nc with last := 0, buf := none, msg_num := NGX_NSOC_1MSG }
        env := { k.env with sends, tx := k.env.tx ++ handshake_frame [] third } }) rfl rfl)
    exact hv₂'.map (fun k => { k with
      noise := s₄
      nc := { k.nc with handshake_phase := .end_phase, buf := none, handshaked := true }
      transport := .noise }) rfl rfl

end

end Endpoint

end ngx_nsoc
