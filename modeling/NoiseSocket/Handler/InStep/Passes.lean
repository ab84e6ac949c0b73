import NoiseSocket.Handler.InStep.Synced

open Exec Exec.Result

namespace ngx_nsoc

variable {S : Type}

/-- noise-c has refused something. -/
theorem accepted_cons {o : Obs} (h : ¬ o.isAccepted) (trace : List Obs) : accepted (o :: trace) = accepted trace :=
  List.countP_cons_of_neg h

/-- A message that is read belongs to the peer. -/
theorem said_of_other {role : Role} {k : Nat} (h : writer k ≠ role) (message : List UInt8) :
    said role k [message] = [] := by
  rw [said, if_neg h]
  rfl

namespace Endpoint

section

variable {N : NoiseC S} {turn : Role → Nat → S → Prop} {w v : Endpoint S} {k : Nat} {left : List UInt8}
  {r : Int × Endpoint S}

/-- The noise part of a message, and the place behind it. -/
theorem Tells.message {made : List (Nat × Option Nat)} {message : List UInt8} {u : Endpoint S}
    (h : w.Tells k made (.len .noise_msg [])) (hunset : w.nc.noise_msg = .unset) (hne : message ≠ [])
    (hlen : TookLen .noise_msg message.length w u) (htook : Took (.msg_data message.length) u v)
    (hbytes : u.env.rx.bytes = message ++ v.env.rx.bytes) : v.Tells k made (.len .neg_data []) := by
  have hheld : (w.nc.size .noise_msg).held = [] := by
    rw [NoiseConnection.size, hunset]
    rfl
  have hpos : 0 < message.length := List.length_pos_of_ne_nil hne
  have hu : u.Tells k made (.behind_len .noise_msg message.length) := Tells.len (by rwa [hheld]) hlen
  rw [Position.behind_len, if_neg (by omega)] at hu
  have hv := hu.data hpos htook hbytes le_rfl
  rwa [if_pos rfl] at hv

/-- A message is read. -/
theorem Synced.read (hN : N.InTurns turn) (hw : w.Synced N turn k) (hphase : w.nc.handshake_phase = .process_phase)
    (hat : w.AtMessage left)
    (hlast : w.nc.last = 0 ∨ w.nc.last = NOISE_ACTION_READ_MESSAGE ∧
      N.handshakestate_get_action w.noise = NOISE_ACTION_READ_MESSAGE)
    (hturn : turn w.nc.noise_role k w.noise) (htold : w.Told k) (hcond : w.Unbroken N)
    (haction : w.action N = NOISE_ACTION_READ_MESSAGE) (hsteps : MessageSteps N (w.setLast 0) r) :
    Advances N turn w k (read_flow r) := by
  have hread := get_action_of_read hlast haction
  obtain ⟨hk, hwriter⟩ := hN.reads _ _ _ hturn hread
  have hat0 := hat.setLast 0
  have hw0 := w.reads_setLast 0
  have htold0 : (w.setLast 0).Told k := htold.congr rfl rfl rfl
  have hover : ∀ {v : Endpoint S}, v.nc.noise_role = w.nc.noise_role → v.env.tx = w.env.tx →
      InOrder v.trace → accepted v.trace = k → Advances N turn w k (read_flow (NGX_ERROR, v)) :=
    fun hrole htx horder hcount => .ended (by decide) horder hcount (by simp) (.nothing hrole htx)
  cases hsteps with
  | gate_ret n v hgate hr => cases hat0.negGate hgate
  | gate_stop n v hgate hn hr =>
    subst hr
    cases hat0.negGate hgate with
    | passed => cases hn
    | refused hpart hreads hchecked =>
      obtain ⟨size, hchecked⟩ := hchecked
      obtain ⟨horder, hcount⟩ := htold0.refused hk hw.msg_num hchecked
      exact hover (hw0.trans hreads).noise_role (hw0.trans hreads).tx horder hcount
    | waits hpart hreads hv hnum hlater hlast' htook =>
      have hall := hw0.trans (hreads.trans (v.reads_setBuf none))
      have hnum : v.nc.msg_num = number k := hnum.trans hw.msg_num
      have hfirst : k ≠ 0 := fun hzero => hlater (hnum.trans ((number_eq_first hk).mpr hzero))
      refine .suspended k ⟨hv.steady, hv.unset, hnum, ?_, ?_⟩ (hall.speaks k)
      · intro hclient
        exact hall.prologue.trans (hw.client (hall.noise_role.symm.trans hclient))
      · refine .message left (hall.handshake_phase.trans hphase) (stands_of_waits hphase hread hall hv hlast') ?_ ?_
        · rw [hall.noise_role, hall.noise]
          exact hturn
        · cases htold with
          | header hzero => exact absurd hzero hfirst
          | message _ htells =>
            refine .message (fun hzero => absurd hzero hfirst) ?_
            exact Tells.held (htells.of_trace rfl) htook (hv.left.symm.trans hat0.left)
  | msg_stop n v hgate hn hmsg hr =>
    have hbehind := hat0.behind hgate hn hmsg
    cases hbehind.read with
    | message _ hge => omega
    | empty _ hge => omega
    | broken hagain hnone hbroken =>
      refine absurd ?_ hbroken
      show ComesWhole v.nc.noise_msg v.env.rx
      rw [hbehind.noise_msg]
      exact hcond hphase haction _ hbehind.rx
  | rejected n v q b code noise hgate hn hmsg hq hbuf hcall hcode hr =>
    have hbehind := hat0.behind hgate hn hmsg
    have hreads := hw0.trans hbehind.reads
    have hchecked := htold0.checked hk hwriter hw.msg_num hbehind.checked
    cases hbehind.read with
    | empty hnone => cases hnone.symm.trans hbuf
    | broken hagain => rw [hagain] at hq; cases hq
    | message message _ hbuf' hsize hne hpart hv hwhole u hlen htook hbytes =>
      have htells := Tells.message (hchecked.of_trace rfl) (hbehind.noise_msg.trans hw.unset) hne hlen htook hbytes
      subst hr
      refine hover hreads.noise_role hreads.tx (htells.inOrder_read rfl) ?_
      rw [accepted_cons (by simpa [Obs.isAccepted] using hcode)]
      exact htells.accepted
  | accepted n v q b noise hgate hn hmsg hq hbuf hcall hr =>
    have hbehind := hat0.behind hgate hn hmsg
    have hreads := hw0.trans hbehind.reads
    have hchecked := htold0.checked hk hwriter hw.msg_num hbehind.checked
    have hnum : q.2.nc.msg_num = number (k + 1) := by
      rw [hbehind.msg_num, ← next_num_number hk]
      exact congrArg next_num hw.msg_num
    cases hbehind.read with
    | empty hnone => cases hnone.symm.trans hbuf
    | broken hagain => rw [hagain] at hq; cases hq
    | message message _ hbuf' hsize hne hpart hv hwhole u hlen htook hbytes =>
      have htells := Tells.message (hchecked.of_trace rfl) (hbehind.noise_msg.trans hw.unset) hne hlen htook hbytes
      have hphase' := hreads.handshake_phase.trans hphase
      rw [hreads.noise] at hcall
      have hstands := stands_of_accepted (N := N) hphase' hv (hnum ▸ isMessage_number _) noise
        (.read_message (b.bytes.take (q.2.nc.noise_msg.recv_size.getD 0)) NOISE_ERROR_NONE :: q.2.trace)
      subst hr
      refine .next (k + 1) ⟨hstands.steady, hstands.unset, hnum, ?_, .message _ hphase' hstands ?_ ?_⟩ ?_
      · intro hclient
        exact hreads.prologue.trans (hw.client (hreads.noise_role.symm.trans hclient))
      · show turn q.2.nc.noise_role (k + 1) noise
        rw [hreads.noise_role]
        exact hN.read _ _ _ _ _ hturn hcall
      · exact .message (fun hzero => absurd hzero (Nat.succ_ne_zero k)) (htells.read rfl)
      · refine ⟨hreads.noise_role, [[]], rfl, by simp, ?_⟩
        rw [said_of_other hwriter]
        exact hreads.tx.trans (List.append_nil _).symm

/-- A message is sent in the format of its number. -/
theorem said_of_header {header : List UInt8} {next : Nat} (hk : k < 3) (hwriter : writer k = w.nc.noise_role)
    (hnum : w.nc.msg_num = number k) (hclient : w.nc.noise_role = .client → w.prologue = proxy_prologue)
    (hheader : w.message_header = some (header, next)) (message : List UInt8) :
    (said w.nc.noise_role k [message]).map Prod.snd = header ++ lenBytes message.length ++ message := by
  have hneg : header = lenBytes (neg_bytes k).length ++ neg_bytes k := by
    unfold message_header at hheader
    obtain rfl | rfl | rfl : k = 0 ∨ k = 1 ∨ k = 2 := by omega
    all_goals
      rw [hnum] at hheader
      obtain ⟨rfl, -⟩ := Prod.mk.inj (Option.some.inj hheader)
    · rw [hclient hwriter.symm]
      rfl
    · rfl
    · rfl
  rw [said, if_pos hwriter, said, List.append_nil, List.map_append, map_snd_field, map_snd_field, ← hneg,
    List.append_assoc]

/-- A message that the socket has taken whole. -/
theorem Synced.sent {u : Endpoint S} {header message : List UInt8} (hN : N.InTurns turn) (hw : w.Synced N turn k)
    (hphase : w.nc.handshake_phase = .process_phase) (hat : w.AtMessage left) (hneg : w.nc.neg_data = .unset)
    (hturn : turn w.nc.noise_role k w.noise) (htold : w.Told k)
    (hwrite : N.handshakestate_get_action w.noise = NOISE_ACTION_WRITE_MESSAGE)
    (hheader : w.message_header = some (header, next_num w.nc.msg_num)) (hframe : WriteFrame w v)
    (hcall : N.handshakestate_write_message w.noise = ((NOISE_ERROR_NONE, message), v.noise))
    (htrace : v.trace = .write_message w.nc.msg_num NOISE_ERROR_NONE :: w.trace)
    (hnum : v.nc.msg_num = next_num w.nc.msg_num) (hsend : SendFrame v u) (hlast : u.nc.last = 0)
    (hbuf : u.nc.buf = none) (htx : u.env.tx = v.env.tx ++ (header ++ lenBytes message.length ++ message)) :
    u.Synced N turn (k + 1) ∧ Speaks w u k (k + 1) := by
  obtain ⟨hk, hwriter⟩ := hN.writes _ _ _ hturn hwrite
  obtain ⟨hturn', hsize⟩ := hN.written _ _ _ _ _ hturn hcall
  obtain ⟨-, hu⟩ := stands_of_sent hphase hat hneg hheader hframe hcall htrace hnum hsend hlast hbuf htx
  have hrole : u.nc.noise_role = w.nc.noise_role := by rw [hsend.nc, hframe.nc]
  have hneg' : u.nc.neg_data = w.nc.neg_data := by rw [hsend.nc, hframe.nc]
  have hphase' : u.nc.handshake_phase = .process_phase := by
    rw [hsend.nc, hframe.nc]
    exact hphase
  have hnum' : u.nc.msg_num = number (k + 1) := by
    rw [hsend.nc]
    exact hnum.trans (hw.msg_num ▸ next_num_number hk)
  refine ⟨⟨hu.steady, hu.unset, hnum', ?_, .message _ hphase' hu ?_ ?_⟩, hrole, [message], rfl, ?_, ?_⟩
  · intro hclient
    rw [hsend.prologue, hframe.prologue]
    exact hw.client (hrole.symm.trans hclient)
  · rw [hrole, hsend.noise]
    exact hturn'
  · cases htold with
    | header hzero hserver =>
      rw [hzero, hserver] at hwriter
      cases hwriter
    | message _ htells =>
      refine .message (fun hzero => absurd hzero (Nat.succ_ne_zero k)) ?_
      rw [hneg']
      exact (htells.wrote (hw.msg_num ▸ htrace)).of_trace hsend.trace
  · simpa using hsize
  · rw [htx, hframe.env, said_of_header hk hwriter hw.msg_num hw.client hheader]

/-- A message is made and sent. -/
theorem Synced.write {flow : ControlFlow (Endpoint S) (Int × Endpoint S)} {n : Int} {b : Option Buf}
    (hN : N.InTurns turn) (hw : w.Synced N turn k) (hphase : w.nc.handshake_phase = .process_phase)
    (hat : w.AtMessage left) (hneg : w.nc.neg_data = .unset) (hturn : turn w.nc.noise_role k w.noise)
    (htold : w.Told k) (hwrite : N.handshakestate_get_action w.noise = NOISE_ACTION_WRITE_MESSAGE)
    (hmsg : w.handshake_start_action_write_message N = ok (n, b, v)) (hfailed : n ≠ NGX_OK → flow = .done (n, v))
    (hsent : n = NGX_OK → ∃ b', b = some b' ∧ SendOutcome N b' v flow) : Advances N turn w k flow := by
  obtain ⟨header, hheader⟩ := message_header_of_isMessage hat.num
  obtain ⟨hframe, hout⟩ := write_message_cases hmsg
  have hrole : v.nc.noise_role = w.nc.noise_role := by rw [hframe.nc]
  have htx : v.env.tx = w.env.tx := by rw [hframe.env]
  cases hout with
  | refused _ _ _ hwhy =>
    rw [hwhy hat.steady.granted.allocs] at hheader
    cases hheader
  | error_message _ hnum =>
    rcases hat.num with h | h | h
    all_goals cases h.symm.trans hnum
  | noise_error code hn hcode _ hcall htrace =>
    have hne : n ≠ NGX_OK := by
      rw [hn]
      exact fun hzero => hcode (Int.natCast_eq_zero.mp hzero)
    have hagain : n ≠ NGX_AGAIN := by
      rw [hn]
      simp only [NGX_AGAIN]
      omega
    have htells : InOrder v.trace ∧ accepted v.trace = k := by
      rw [hw.msg_num] at htrace
      have hcount : accepted v.trace = accepted w.trace := by
        rw [htrace, accepted_cons (by simpa [Obs.isAccepted] using hcode)]
      cases htold with
      | header _ _ htells | message _ htells =>
        exact ⟨htells.inOrder_write htrace, hcount.trans htells.accepted⟩
    rw [hfailed hne]
    exact .ended hagain htells.1 htells.2 (fun hok => absurd hok hne) (.nothing hrole htx)
  | written header' message next hn hheader' hcall hb htrace hnum =>
    obtain ⟨rfl, rfl⟩ : header = header' ∧ next_num w.nc.msg_num = next := by
      simpa using Option.some.inj (hheader.symm.trans hheader')
    obtain ⟨b', rfl, hsend⟩ := hsent hn
    cases hb
    have hsends : v.env.sends = [] := by
      rw [hframe.env]
      exact hat.steady.sends
    cases hsend with
    | refused _ hevents =>
      refine absurd hevents (not_eventRefused ?_)
      rw [hframe.env]
      exact hat.steady.granted.events
    | blocked _ hblocked => exact absurd hsends hblocked
    | wait hframe' _ hlast hbuf htx' =>
      obtain ⟨hu, hspeaks⟩ := hw.sent hN hphase hat hneg hturn htold hwrite hheader hframe hcall htrace hnum hframe'
        hlast hbuf (htx' hsends)
      exact .suspended (k + 1) hu hspeaks
    | go_on hframe' _ hlast hbuf htx' =>
      obtain ⟨hu, hspeaks⟩ := hw.sent hN hphase hat hneg hturn htold hwrite hheader hframe hcall htrace hnum hframe'
        hlast hbuf (htx' hsends)
      exact .next (k + 1) hu hspeaks

/-- Where a read has to wait inside the noise part of a message, `msg_num` is that of the next one already. -/
theorem Synced.drifts_of_read (hN : N.InTurns turn) (hw : w.Synced N turn k) (hat : w.AtMessage left)
    (hlast : w.nc.last = 0 ∨ w.nc.last = NOISE_ACTION_READ_MESSAGE ∧
      N.handshakestate_get_action w.noise = NOISE_ACTION_READ_MESSAGE)
    (hturn : turn w.nc.noise_role k w.noise) (hcount : accepted w.trace = k)
    (haction : w.action N = NOISE_ACTION_READ_MESSAGE) {rx : Net.Incoming} (hrx : w.gate_rx = some rx)
    (hbroken : ¬ ComesWhole w.nc.noise_msg rx) (hsteps : MessageSteps N (w.setLast 0) r) :
    r.1 = NGX_AGAIN ∧ r.2.nc.msg_num ≠ number (accepted r.2.trace) := by
  obtain ⟨hk, -⟩ := hN.reads _ _ _ hturn (get_action_of_read hlast haction)
  have hat0 := hat.setLast 0
  have hpast : ∀ {v : Endpoint S} {q : Int × Endpoint S}, Behind (w.setLast 0) v q left →
      ¬ ComesWhole (v.setBuf none).nc.noise_msg (v.setBuf none).env.rx := by
    intro v q hbehind
    have hrx' : w.gate_rx = some v.env.rx := hbehind.rx
    obtain rfl := Option.some.inj (hrx'.symm.trans hrx)
    show ¬ ComesWhole v.nc.noise_msg v.env.rx
    rw [hbehind.noise_msg]
    exact hbroken
  cases hsteps with
  | gate_ret n v hgate hr => cases hat0.negGate hgate
  | gate_stop n v hgate hn hr =>
    have hnone : w.gate_rx = none := hgate.rx_of_stop fun n' v' heq => by
      cases heq
      exact hn
    cases hnone.symm.trans hrx
  | msg_stop n v hgate hn hmsg hr =>
    have hbehind := hat0.behind hgate hn hmsg
    cases hbehind.read with
    | message _ hge => omega
    | empty _ hge => omega
    | broken hagain =>
      refine ⟨hagain, ?_⟩
      rw [hbehind.msg_num, ((w.reads_setLast 0).trans hbehind.reads).accepted, hcount]
      show next_num w.nc.msg_num ≠ number k
      rw [hw.msg_num, next_num_number hk]
      exact number_succ_ne hk
  | rejected n v q b code noise hgate hn hmsg hq hbuf | accepted n v q b noise hgate hn hmsg hq hbuf =>
    have hbehind := hat0.behind hgate hn hmsg
    cases hbehind.read with
    | empty hnone => cases hnone.symm.trans hbuf
    | broken hagain => rw [hagain] at hq; cases hq
    | message _ _ _ _ _ _ _ hwhole => exact absurd hwhole (hpast hbehind)

/-- The phase `NGX_NSOC_HANDSHAKE_PROCESS_PHASE`. -/
theorem Synced.process {flow : ControlFlow (Endpoint S) (Int × Endpoint S)} (hN : N.InTurns turn)
    (hw : w.Synced N turn k) (hphase : w.nc.handshake_phase = .process_phase) (hat : w.AtMessage left)
    (hlast : w.nc.last = 0 ∨ w.nc.last = NOISE_ACTION_READ_MESSAGE ∧
      N.handshakestate_get_action w.noise = NOISE_ACTION_READ_MESSAGE)
    (hwrite : N.handshakestate_get_action w.noise = NOISE_ACTION_WRITE_MESSAGE → w.nc.neg_data = .unset)
    (hturn : turn w.nc.noise_role k w.noise) (htold : w.Told k) (hcond : w.Unbroken N)
    (hstep : ProcessStep N w flow) : Advances N turn w k flow := by
  have hget : w.action N = NOISE_ACTION_WRITE_MESSAGE →
      N.handshakestate_get_action w.noise = NOISE_ACTION_WRITE_MESSAGE := by
    intro haction
    rcases hlast with hzero | ⟨hread, -⟩
    · rwa [action, if_neg (not_not.mpr hzero)] at haction
    · rw [action, hread, if_pos (by decide)] at haction
      cases haction
  have htells : InOrder w.trace ∧ accepted w.trace = k := by
    cases htold with
    | header _ _ htells | message _ htells => exact ⟨htells.order, htells.accepted⟩
  cases hstep with
  | write_failed haction _ hmsg hn =>
    have hget := hget haction
    exact hw.write hN hphase hat (hwrite hget) hturn htold hget hmsg (fun _ => rfl) fun hok => absurd hok hn
  | write_new haction _ hmsg =>
    have hget := hget haction
    exact hw.write hN hphase hat (hwrite hget) hturn htold hget hmsg (fun hne => absurd rfl hne)
      fun _ => ⟨_, rfl, send_action_cases N _ _⟩
  | write_old haction hlast' =>
    rcases hlast with hzero | ⟨hread, -⟩
    · cases hzero.symm.trans hlast'
    · cases hread.symm.trans hlast'
  | @read_stopped r haction hsteps hn =>
    have hread := hw.read hN hphase hat hlast hturn htold hcond haction hsteps
    rwa [read_flow, if_neg hn] at hread
  | @read_done r haction hsteps hn =>
    have hread := hw.read hN hphase hat hlast hturn htold hcond haction hsteps
    rwa [read_flow, if_pos hn] at hread
  | split =>
    unfold split_action
    dsimp only
    split_ifs
    · exact .ended (by decide) htells.1 htells.2 (by simp) (.nothing rfl rfl)
    · exact .ended (by decide) htells.1 htells.2 (by simp) (.nothing rfl rfl)
    · exact .ended (by decide) htells.1 htells.2 (fun _ => hw.msg_num) (.nothing rfl rfl)
  | failed => exact .ended (by decide) htells.1 htells.2 (by simp) (.nothing rfl rfl)

end

end Endpoint

end ngx_nsoc
