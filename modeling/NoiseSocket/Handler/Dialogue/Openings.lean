import NoiseSocket.Handler.Dialogue.Passes

open Exec Exec.Result

namespace ngx_nsoc

variable {S : Type}

/-- A header needs six bytes and looks at no others. -/
theorem FirstHdr.ofBytes_append {got : List UInt8} (hsize : got.length = 6) :
    ∃ header, FirstHdr.ofBytes got = some header ∧ ∀ rest, FirstHdr.ofBytes (got ++ rest) = some header := by
  obtain ⟨v0, v1, dh, cipher, hash, pattern, rfl⟩ : ∃ v0 v1 dh cipher hash pattern,
      got = [v0, v1, dh, cipher, hash, pattern] := by
    match got, hsize with
    | [v0, v1, dh, cipher, hash, pattern], _ => exact ⟨v0, v1, dh, cipher, hash, pattern, rfl⟩
  exact ⟨_, rfl, fun _ => rfl⟩

theorem FirstHdr.ofBytes_of_short {bytes : List UInt8} (h : bytes.length < 6) : FirstHdr.ofBytes bytes = none := by
  unfold ofBytes
  split
  · simp at h
    omega
  · rfl

namespace Endpoint

/-- A responder of noise-c begins by reading: the first message is the initiator's. -/
def RespondersRead (N : NoiseC S) : Prop :=
  ∀ w v : Endpoint S, w.nc.noise_role = .server → ngx_noise_protocol.init_handshake N w = ok (NGX_OK, v) →
    N.handshakestate_get_action (N.handshakestate_start v.noise).2 ≠ NOISE_ACTION_WRITE_MESSAGE

section

variable {N : NoiseC S} {w v : Endpoint S} {r : Int × Endpoint S} {left : List UInt8}

theorem sameKeys_dialogue (w : Endpoint S) (left : List UInt8) :
    ngx_noise_protocol.SameKeys w (w.dialogue left).endpoint :=
  ⟨rfl, rfl, rfl, rfl, rfl⟩

theorem calls_of_setup {obs : List Obs} (h : ∀ o ∈ obs, o.isSetup = true) (trace : List Obs) :
    calls (obs ++ trace) = obs ++ calls trace := by
  have hall : calls obs = obs := by
    rw [calls, List.filter_eq_self]
    intro o ho
    have hkind := h o ho
    cases o <;> simp_all [Obs.isSetup, Obs.isRead]
  rw [calls, List.filter_append, ← calls, hall, ← calls]

/-- Setting up noise-c is the same for the dialogue. -/
theorem init_handshake_dialogue {n : Int} (left : List UInt8) (h : ngx_noise_protocol.init_handshake N w = ok (n, v)) :
    ∃ v', ngx_noise_protocol.init_handshake N (w.dialogue left).endpoint = ok (n, v') ∧ v'.noise = v.noise ∧
      v'.trace = calls v.trace := by
  have hsame := ngx_noise_protocol.init_handshake_same N (w.sameKeys_dialogue left)
  rw [h] at hsame
  generalize hcall : ngx_noise_protocol.init_handshake N (w.dialogue left).endpoint = x at hsame
  cases hsame with
  | @ok n v v' obs hkeys htrace htrace' =>
    refine ⟨v', rfl, hkeys.noise, ?_⟩
    obtain ⟨hframe, -⟩ := init_handshake_cases h
    obtain ⟨obs', hobs, hsetup⟩ := hframe.trace
    obtain rfl : obs = obs' := List.append_cancel_right (htrace.symm.trans hobs)
    rw [htrace', htrace, calls_of_setup hsetup]
    rfl

/-- An endpoint whose noise-c objects have been set up. -/
theorem stands_of_start (hN : RespondersRead N) (hsteady : w.Steady) (hunset : w.nc.noise_msg = .unset)
    (hnum : w.nc.msg_num = NGX_NSOC_1MSG) (hheld : w.nc.neg_data.held = [])
    (hneg : w.nc.noise_role = .client → w.nc.neg_data = .unset) (hframe : InitFrame w v)
    (hinit : ngx_noise_protocol.init_handshake N w = ok (NGX_OK, v)) :
    Stands N { v with
      noise := (N.handshakestate_start v.noise).2
      nc := { w.nc with buf := none, handshake_phase := .process_phase, last := 0 } } w.env.rx.bytes := by
  have hsteady' : Steady { v with
      noise := (N.handshakestate_start v.noise).2
      nc := { w.nc with buf := none, handshake_phase := .process_phase, last := 0 } } :=
    hsteady.congr hframe.env (congrArg (fun c : Connection => c.read.eof) hframe.c)
  refine ⟨hsteady', hunset, .message rfl ⟨hsteady', rfl, hunset, .inl hnum, fun _ => hheld,
    fun hlater => absurd hnum hlater, ?_⟩ (.inl rfl) ?_⟩
  · show w.env.rx.bytes = w.nc.neg_data.held ++ v.env.rx.bytes
    rw [hheld, hframe.env]
    rfl
  · intro hwrite
    cases hrole : w.nc.noise_role with
    | client => exact hneg hrole
    | server => exact absurd hwrite (hN w v hrole hinit)

/-- The noise-c objects are set up, and the first message is due. -/
theorem start_simulated {flow : ControlFlow (Endpoint S) (Int × Endpoint S)} {u : Endpoint S} {given : List UInt8}
    (hN : RespondersRead N) (hturn : (u.dialogue given).turn N = (w.dialogue left).start N)
    (hsteady : w.Steady) (hunset : w.nc.noise_msg = .unset) (hnum : w.nc.msg_num = NGX_NSOC_1MSG)
    (hheld : w.nc.neg_data.held = []) (hneg : w.nc.noise_role = .client → w.nc.neg_data = .unset)
    (hleft : left = w.env.rx.bytes) (hstart : StartOutcome N w flow) : Simulated N u given flow := by
  cases hstart with
  | @failed v hframe hinit =>
    obtain ⟨v', hinit', hnoise, htrace⟩ := init_handshake_dialogue left hinit
    unfold Dialogue.start at hturn
    rw [hinit'] at hturn
    refine .ended (hturn.trans (if_pos rfl)) ⟨hnoise.symm, hframe.prologue, ?_, htrace.symm⟩ (by decide)
    exact congrArg Env.tx hframe.env
  | @started v hframe hinit =>
    obtain ⟨v', hinit', hnoise, htrace⟩ := init_handshake_dialogue left hinit
    unfold Dialogue.start at hturn
    rw [hinit'] at hturn
    refine .next ((hturn.trans (if_neg (by decide))).trans (congrArg Dialogue.Turn.next ?_))
      (hleft ▸ stands_of_start hN hsteady hunset hnum hheld hneg hframe hinit)
    simp only [dialogue, hnoise, htrace, hframe.prologue, hframe.mem, hframe.env]

/-- The reply to a header of another version, where the socket takes it. -/
theorem Steady.version_error (hw : w.Steady) (N : NoiseC S) : ∃ u, w.version_error N = ok (NGX_ERROR, u) ∧
    u.noise = w.noise ∧ u.prologue = w.prologue ∧ u.env.tx = w.env.tx ++ err_message ∧ u.trace = w.trace := by
  have hgranted : (w.setMsgNum NGX_NSOC_2MSG_ERR).Granted := ⟨hw.granted.events, hw.granted.allocs, hw.granted.eof⟩
  have hmsg : (w.setMsgNum NGX_NSOC_2MSG_ERR).handshake_start_action_write_message N =
      ok (NGX_OK, some ⟨err_message, 0, message_room NGX_NSOC_2MSG_NEG_DATA_ERR_SIZE⟩,
        (w.setMsgNum NGX_NSOC_2MSG_ERR).setMsgNum NGX_NSOC_1MSG) := by
    unfold handshake_start_action_write_message
    simp only [hgranted.ngx_alloc]
    rfl
  have hsends : ((w.setMsgNum NGX_NSOC_2MSG_ERR).setMsgNum NGX_NSOC_1MSG).env.sends = [] := hw.sends
  rw [version_error_eq_reply hmsg]
  unfold reply ngx_send
  rw [hsends]
  exact ⟨_, rfl, rfl, rfl, rfl, rfl⟩

/-- The header of the first message: it waits, or its length is another one, or it is there. -/
inductive HeaderRead (N : NoiseC S) (w : Endpoint S) (left : List UInt8) (r : Int × Endpoint S) : Prop where
  | waits (hn : r.1 = NGX_AGAIN) (hturn : r.2.env.rx.bytes = [] → (w.dialogue left).read_header N = .waits)
      (hon : w.Uncut N → r.2.nc.msg_num = w.nc.msg_num ∧ r.2.Stands N left)
  | refused (hn : r.1 = NGX_ERROR)
      (hturn : (w.dialogue left).read_header N = .ended NGX_ERROR (w.dialogue left))
  | header (b0 b1 : UInt8) (got : List UInt8) (header : FirstHdr) (hn : 0 < r.1) (hsix : be16 b0 b1 = 6)
      (hleft : left = b0 :: b1 :: (got ++ r.2.env.rx.bytes)) (hbuf : r.2.nc.buf = some ⟨got, 0, 6⟩)
      (hhdr : FirstHdr.ofBytes got = some header)
      (hall : FirstHdr.ofBytes (got ++ r.2.env.rx.bytes) = some header) (hsize : got.length = 6)
      (hv : r.2.Steady) (hneg : r.2.nc.neg_data = .known 6)

theorem read_header_of_short (h : left.length ≤ 1) : (w.dialogue left).read_header N = .waits := by
  unfold Dialogue.read_header
  obtain _ | ⟨b0, _ | ⟨b1, rest⟩⟩ := left
  · rfl
  · rfl
  · simp at h

theorem read_header_of_refused {b0 b1 : UInt8} {rest : List UInt8} (hleft : left = b0 :: b1 :: rest)
    (hne : be16 b0 b1 ≠ 6) : (w.dialogue left).read_header N = .ended NGX_ERROR (w.dialogue left) := by
  subst hleft
  unfold Dialogue.read_header
  exact if_pos hne

theorem read_header_of_len {b0 b1 : UInt8} {rest : List UInt8} (hleft : left = b0 :: b1 :: rest)
    (hsix : be16 b0 b1 = 6) (hlt : rest.length < 6) : (w.dialogue left).read_header N = .waits := by
  subst hleft
  unfold Dialogue.read_header
  refine (if_neg (not_not.mpr hsix)).trans ?_
  rw [FirstHdr.ofBytes_of_short hlt]

/-- The header behind its length, which `v` has just received or had received before. -/
theorem headerRead_of_len (b0 b1 : UInt8) (hphase : w.nc.handshake_phase = .none_phase)
    (hrole : w.nc.noise_role = .server) (hnum : w.nc.msg_num = NGX_NSOC_1MSG) (hunset : w.nc.noise_msg = .unset)
    (hframe : FieldFrame .neg_data w v) (hv : v.Steady) (hneg : v.nc.neg_data = .known 6)
    (hbuf : v.Holds [] 6) (hbytes : [b0, b1] = lenBytes 6)
    (hleft : left = b0 :: b1 :: v.env.rx.bytes)
    (hlen : noise_len w.nc.neg_data w.env.rx = some (6, v.env.rx)) :
    HeaderRead N w left (v.read_part (.neg_data 6) 6) := by
  have hpart := (read_part_cases (.neg_data 6) 6 v).1
  have hsix : be16 b0 b1 = 6 := by
    obtain ⟨rfl, rfl⟩ : b0 = 0 ∧ b1 = 6 := by simpa [lenBytes] using hbytes
    rfl
  cases hv.read_part (.neg_data 6) hbuf (by decide) with
  | whole got hn hsize _ hgot hv' hbuf' =>
    obtain ⟨header, hhdr, hall⟩ := FirstHdr.ofBytes_append hsize
    refine .header b0 b1 got header (by rw [hn, hsize]; decide) hsix ?_ hbuf' hhdr (hall _) hsize hv'
      (hpart.neg_data.trans hneg)
    rw [hleft, hgot]
  | waits hn _ hrest hv' hbuf' =>
    refine .waits hn ?_ ?_
    · intro hnil
      refine read_header_of_len hleft hsix ?_
      rw [← hrest, hnil]
      decide
    · intro _
      have hreads := hframe.reads.trans hpart.reads
      have hnum' := hpart.msg_num.trans hframe.msg_num
      refine ⟨hnum', hv', ?_, .behind_len (hreads.handshake_phase.trans hphase) (hnum'.trans hnum)
        (hreads.noise_role.trans hrole) (hpart.neg_data.trans hneg) hbuf' ?_⟩
      · exact hpart.noise_msg.trans ((hframe.other .noise_msg (by simp)).trans hunset)
      · rw [hrest, hleft, ← hbytes]
        rfl
  | short got hn hlt hrecv hgot =>
    refine .waits hn ?_ ?_
    · intro hnil
      rw [hnil, List.append_nil] at hgot
      exact read_header_of_len hleft hsix (hgot ▸ hlt)
    · intro huncut
      have hall : got.length = 6 := huncut.header hphase hrole _ hlen _ _ hrecv
      omega

theorem lenBytes_of_be16 {b0 b1 : UInt8} (h : be16 b0 b1 = 6) : [b0, b1] = lenBytes 6 := by
  have h0 := b0.toNat_lt
  have h1 := b1.toNat_lt
  have hzero : b0.toNat = 0 := by
    simp only [be16] at h
    omega
  have hsix : b1.toNat = 6 := by
    simp only [be16] at h
    omega
  obtain rfl : b0 = 0 := UInt8.toNat_inj.mp hzero
  obtain rfl : b1 = 6 := UInt8.toNat_inj.mp hsix
  rfl

theorem NegSteps.headerRead (h : NegSteps NGX_NSOC_1MSG_NEG_DATA_SIZE w r) (hw : w.Stands N left)
    (hphase : w.nc.handshake_phase = .none_phase) (hrole : w.nc.noise_role = .server) :
    HeaderRead N w left r := by
  have hframe := h.frame
  cases hw.place with
  | header _ hnum hneg hclient hbuf hleft =>
    cases h.negRead hw.steady hneg with
    | waits hn hv hsize hheld _ hbuf' =>
      have hleft' : left = r.2.nc.neg_data.held ++ r.2.env.rx.bytes := hleft.trans hheld.symm
      refine .waits hn ?_ ?_
      · intro hnil
        rw [hnil, List.append_nil] at hleft'
        exact read_header_of_short (hleft' ▸ r.2.nc.neg_data.length_held)
      · intro _
        refine ⟨hframe.msg_num, hv, (hframe.other .noise_msg (by simp)).trans hw.unset,
          .header (hframe.reads.handshake_phase.trans hphase) (hframe.msg_num.trans hnum) hsize ?_
            (hbuf'.trans hbuf) hleft'⟩
        intro hrole'
        cases (hframe.reads.noise_role.trans hrole).symm.trans hrole'
    | refused b0 b1 rest hn hbytes hne => exact .refused hn (read_header_of_refused (hleft.trans hbytes) hne)
    | got v b0 b1 hbytes heq hv hframe' hneg' hbuf' htaken hr =>
      subst hr
      refine headerRead_of_len b0 b1 hphase hrole hnum hw.unset hframe' hv hneg' (.inl ⟨hbuf'.trans hbuf, rfl⟩)
        (lenBytes_of_be16 heq) (hleft.trans hbytes) ?_
      rw [noise_len_of_taken hneg (by rw [htaken]; rfl) (by rw [htaken]; rfl), htaken]
  | behind_len _ hnum _ hneg hbuf hleft =>
    cases h with
    | known size hsize hr =>
      rw [hneg] at hsize
      cases hsize
      subst hr
      exact headerRead_of_len 0 6 hphase hrole hnum hw.unset
        ((PartFrame.refl w).fieldFrame .neg_data) hw.steady hneg (.inr hbuf) rfl hleft (by rw [hneg]; rfl)
    | again _ _ hsize | error _ _ hsize | mismatch _ hsize | accepted _ hsize =>
      rw [hneg] at hsize
      cases hsize
  | message hphase' =>
    rw [hphase] at hphase'
    cases hphase'

/-- Behind the header. -/
theorem read_header_of_header {b0 b1 : UInt8} {got rest : List UInt8} {header : FirstHdr}
    (hleft : left = b0 :: b1 :: (got ++ rest)) (hsix : be16 b0 b1 = 6) (hsize : got.length = 6)
    (hall : FirstHdr.ofBytes (got ++ rest) = some header) :
    (w.dialogue left).read_header N =
      if header.version_id ≠ NGX_NSOC_VERSION_ID then
        .ended NGX_ERROR { w.dialogue left with tx := w.env.tx ++ err_message }
      else Dialogue.start N { w.dialogue left with prologue := { w.prologue with header }, left := rest } := by
  subst hleft
  unfold Dialogue.read_header
  refine (if_neg (not_not.mpr hsix)).trans ?_
  rw [hall]
  have hdrop : (got ++ rest).drop NGX_NSOC_1MSG_NEG_DATA_SIZE = rest :=
    List.drop_left' hsize
  dsimp only
  rw [hdrop]
  rfl

theorem turn_of_client (hphase : w.nc.handshake_phase = .none_phase) (hrole : w.nc.noise_role = .client) :
    (w.dialogue left).turn N = (w.dialogue left).start N := by
  unfold Dialogue.turn
  simp only [dialogue, hphase, hrole]

theorem turn_of_server (hphase : w.nc.handshake_phase = .none_phase) (hrole : w.nc.noise_role = .server) :
    (w.dialogue left).turn N = (w.dialogue left).read_header N := by
  unfold Dialogue.turn
  simp only [dialogue, hphase, hrole]

/-- The dialogue of a server that has taken over the header. -/
theorem dialogue_of_header {header : FirstHdr} {rest : List UInt8} (hreads : Reads w v)
    (hnum : v.nc.msg_num = w.nc.msg_num) :
    dialogue { v with prologue := { v.prologue with header } } rest =
      { w.dialogue left with prologue := { w.prologue with header }, left := rest } := by
  simp only [dialogue, hreads.handshake_phase, hreads.noise_role, hreads.noise_ctx, hnum, hreads.noise,
    hreads.prologue, hreads.mem, hreads.tx, hreads.calls]

/-- The phase `NGX_NSOC_HANDSHAKE_NONE_PHASE`. -/
theorem none_simulated {flow : ControlFlow (Endpoint S) (Int × Endpoint S)} (hN : RespondersRead N)
    (hw : w.Stands N left) (hphase : w.nc.handshake_phase = .none_phase) (hstep : NoneStep N w flow) :
    Simulated N w left flow := by
  cases hstep with
  | client hrole hstart =>
    have hturn : (w.dialogue left).turn N = (w.dialogue left).start N := turn_of_client hphase hrole
    cases hw.place with
    | header _ hnum _ hclient _ hleft =>
      have hneg := hclient hrole
      rw [hneg] at hleft
      exact start_simulated hN hturn hw.steady hw.unset hnum (by rw [hneg]; rfl) hclient hleft hstart
    | behind_len _ _ hrole' => cases hrole.symm.trans hrole'
    | message hphase' => cases hphase.symm.trans hphase'
  | @neg_stopped r hrole hneg hn =>
    have hturn : (w.dialogue left).turn N = (w.dialogue left).read_header N := turn_of_server hphase hrole
    have hreads := hneg.frame.reads
    obtain ⟨n, v⟩ := r
    cases hneg.headerRead hw hphase hrole with
    | waits hagain hwait hon =>
      obtain rfl : n = NGX_AGAIN := hagain
      refine .waits (fun hnil => hturn.trans (hwait hnil)) (hreads.shows left) ?_
      intro huncut
      obtain ⟨hnum, hv⟩ := hon huncut
      refine ⟨?_, hv⟩
      rw [hreads.dialogue, hnum]
      rfl
    | refused herror hrefused =>
      obtain rfl : n = NGX_ERROR := herror
      exact .ended (hturn.trans hrefused) (hreads.shows left) (by decide)
    | header _ _ _ _ hpos => exact absurd hn (by omega)
  | @version r q b first_hdr hrole hneg hn hbuf hhdr hversion hreply =>
    have hturn : (w.dialogue left).turn N = (w.dialogue left).read_header N := turn_of_server hphase hrole
    have hreads := hneg.frame.reads
    cases hneg.headerRead hw hphase hrole with
    | waits hagain | refused herror => simp_all
    | header b0 b1 got header _ hsix hleft hbuf' hhdr' hall hsize hv hneg' =>
      obtain rfl := Option.some.inj (hbuf'.symm.trans hbuf)
      obtain rfl := Option.some.inj (hhdr'.symm.trans hhdr)
      obtain ⟨u, hcall, hnoise, hprologue, htx, htrace⟩ := hv.version_error N
      rw [hreply] at hcall
      cases hcall
      refine .ended (hturn.trans ((read_header_of_header hleft hsix hsize hall).trans (if_pos hversion))) ?_
        (by decide)
      refine ⟨hnoise.trans hreads.noise, hprologue.trans hreads.prologue, ?_, ?_⟩
      · rw [htx, hreads.tx]
      · rw [htrace]
        exact hreads.calls
  | @header r b first_hdr flow hrole hneg hn hbuf hhdr hversion hstart =>
    have hturn : (w.dialogue left).turn N = (w.dialogue left).read_header N := turn_of_server hphase hrole
    have hframe := hneg.frame
    have hreads := hframe.reads
    cases hneg.headerRead hw hphase hrole with
    | waits hagain | refused herror => simp_all
    | header b0 b1 got header _ hsix hleft hbuf' hhdr' hall hsize hv hneg' =>
      obtain rfl := Option.some.inj (hbuf'.symm.trans hbuf)
      obtain rfl := Option.some.inj (hhdr'.symm.trans hhdr)
      have hnum : w.nc.msg_num = NGX_NSOC_1MSG := by
        cases hw.place with
        | header _ hnum | behind_len _ hnum => exact hnum
        | message hphase' => cases hphase.symm.trans hphase'
      have hwith : ({ r.2 with prologue := { r.2.prologue with header } } : Endpoint S).Steady := hv.congr rfl rfl
      refine start_simulated hN ?_ hwith ?_ ?_ ?_ ?_ rfl hstart
      · exact hturn.trans ((read_header_of_header hleft hsix hsize hall).trans
          ((if_neg (not_not.mpr hversion)).trans
            (congrArg (Dialogue.start N) (dialogue_of_header hreads hframe.msg_num).symm)))
      · exact (hframe.other .noise_msg (by simp)).trans hw.unset
      · exact hframe.msg_num.trans hnum
      · show r.2.nc.neg_data.held = []
        rw [hneg']
        rfl
      · intro hclient
        cases (hreads.noise_role.trans hrole).symm.trans hclient

/-- The switch of a pass. -/
theorem phase_simulated {fuel : Nat} {flow : ControlFlow (Endpoint S) (Int × Endpoint S)} (hN : RespondersRead N)
    (hw : w.Stands N left) (h : w.phase N fuel = ok flow) : Simulated N w left flow := by
  unfold phase at h
  cases hw.place with
  | header hphase | behind_len hphase =>
    rw [hphase] at h
    exact none_simulated hN hw hphase (none_phase_cases h)
  | message hphase hat hlast hwrite =>
    rw [hphase] at h
    exact process_simulated hphase hat hlast hwrite (process_phase_cases h)

end

end Endpoint

end ngx_nsoc
