import NoiseSocket.Handler.InStep.Passes

open Exec Exec.Result

namespace ngx_nsoc

variable {S : Type}

namespace Endpoint

/-- What the peer sends begins as the first message of an honest client does. -/
def HeaderFirst (w : Endpoint S) : Prop :=
  ∀ front, front <+: w.stream → front.length = 8 → front = proxy_prologue.headerBytes

section

variable {N : NoiseC S} {turn : Role → Nat → S → Prop} {w v : Endpoint S} {k : Nat}
  {r : Int × Endpoint S} {flow : ControlFlow (Endpoint S) (Int × Endpoint S)} {part : Part}

theorem Took.stream (h : Took part w v) : v.stream = w.stream := by
  obtain ⟨bytes, obs, hobs, htrace, hbytes⟩ := h
  rw [Endpoint.stream, htrace, hobs.received, List.append_assoc, ← hbytes]
  rfl

theorem TookLen.stream {f : LenField} {size : Nat} (h : TookLen f size w v) : v.stream = w.stream := h.1.stream

theorem stream_check {true_len : Nat} {len : Option Nat} (htrace : v.trace = .negotiation true_len len :: w.trace)
    (hrx : v.env.rx = w.env.rx) : v.stream = w.stream := by
  have hone : v.trace = [.negotiation true_len len] ++ w.trace := htrace
  exact stream_of_trace hone rfl hrx

/-- The noise-c objects are set up, and the first message is due. -/
theorem start_advances (hN : N.InTurns turn) (hsteady : w.Steady) (hunset : w.nc.noise_msg = .unset)
    (hnum : w.nc.msg_num = NGX_NSOC_1MSG) (hheld : w.nc.neg_data.held = [])
    (hneg : w.nc.noise_role = .client → w.nc.neg_data = .unset)
    (hclient : w.nc.noise_role = .client → w.prologue = proxy_prologue) (htold : w.Told 0)
    (hstart : StartOutcome N w flow) : Advances N turn w 0 flow := by
  cases hstart with
  | @failed v hframe hinit =>
    have htells : ∀ {made place}, w.Tells 0 made place → (v.setBuf none).Tells 0 made place :=
      fun h => (h.setup hframe).of_trace rfl
    have hrole : (v.setBuf none).nc.noise_role = w.nc.noise_role := by
      show v.nc.noise_role = _
      rw [hframe.nc]
    have htx : (v.setBuf none).env.tx = w.env.tx := congrArg Env.tx hframe.env
    cases htold with
    | header _ _ h | message _ h =>
      exact .ended (by decide) (htells h).order (htells h).accepted (by simp) (.nothing hrole htx)
  | @started v hframe hinit =>
    have hstands := stands_of_start hN.respondersRead hsteady hunset hnum hheld hneg hframe hinit
    refine .next 0 ⟨hstands.steady, hunset, hnum, ?_, .message _ rfl hstands (hN.starts w v hinit) ?_⟩
      (.nothing rfl (congrArg Env.tx hframe.env))
    · exact fun h => hframe.prologue.trans (hclient h)
    · cases htold with
      | header hk hserver h => exact .header hk hserver ((h.setup hframe).of_trace rfl)
      | message hfirst h => exact .message hfirst ((h.setup hframe).of_trace rfl)

/-- The header of the first message in a phase: the read of it has to wait, or fails, or has all of it. -/
inductive HeaderPart (N : NoiseC S) (turn : Role → Nat → S → Prop) (stream : List UInt8)
    (r : Int × Endpoint S) : Prop where
  | waits (hn : r.1 = NGX_AGAIN) (hv : r.2.Synced N turn 0)
  | failed (hn : r.1 = NGX_ERROR) (horder : InOrder r.2.trace) (hk : accepted r.2.trace = 0)
  | whole (got rest : List UInt8) (b0 b1 : UInt8) (hn : 0 < r.1) (hsize : got.length = 6) (hv : r.2.Steady)
      (hbuf : r.2.nc.buf = some ⟨got, 0, 6⟩) (hstream : stream = b0 :: b1 :: (got ++ rest))
      (htells : r.2.Tells 0 [(6, some 6)] (.len .noise_msg [])) (hneg : r.2.nc.neg_data = .known 6)
      (hunset : r.2.nc.noise_msg = .unset)

theorem header_of_short {got : List UInt8} (h : got.length < 6) :
    Position.header got = .data .neg_data 6 (6 - got.length) := if_neg (by omega)

/-- The data of the header, from where `v` has got to. -/
theorem Steady.header_part {got : List UInt8} {b0 b1 : UInt8} (hv : v.Steady) (hunset : v.nc.noise_msg = .unset)
    (hnum : v.nc.msg_num = NGX_NSOC_1MSG) (hphase : v.nc.handshake_phase = .none_phase)
    (hrole : v.nc.noise_role = .server) (hneg : v.nc.neg_data = .known 6) (hbuf : v.Holds got 6)
    (hlt : got.length < 6) (htells : v.Tells 0 [(6, some 6)] (.header got))
    (hstream : v.stream = b0 :: b1 :: (got ++ v.env.rx.bytes)) :
    HeaderPart N turn v.stream (v.read_part (.neg_data 6) 6) := by
  obtain ⟨hframe, -⟩ := read_part_cases (.neg_data 6) 6 v
  have htook := v.took_read_part (.neg_data 6) 6
  rw [header_of_short hlt] at htells
  have hpos : 0 < 6 - got.length := by omega
  have hsynced : ∀ more : List UInt8, (v.read_part (.neg_data 6) 6).2.Steady → more.length ≤ 6 - got.length →
      v.env.rx.bytes = more ++ (v.read_part (.neg_data 6) 6).2.env.rx.bytes →
      (v.read_part (.neg_data 6) 6).2.nc.buf = some ⟨got ++ more, 0, 6⟩ →
      (v.read_part (.neg_data 6) 6).2.Synced N turn 0 := by
    intro more hsteady hle hbytes hbuf'
    refine ⟨hsteady, hframe.noise_msg.trans hunset, hframe.msg_num.trans hnum, ?_, ?_⟩
    · intro hclient
      cases (hframe.reads.noise_role.trans hrole).symm.trans hclient
    refine .in_header (got ++ more) b0 b1 (hframe.reads.handshake_phase.trans hphase) rfl
      (hframe.reads.noise_role.trans hrole) (hframe.neg_data.trans hneg) hbuf' ?_ ?_ ?_
    · rw [List.length_append]
      omega
    · have hmore := htells.data hpos htook hbytes hle
      have hplace : (if more.length = 6 - got.length then Position.len .noise_msg []
          else .data .neg_data 6 (6 - got.length - more.length)) = .header (got ++ more) := by
        unfold Position.header
        rw [List.length_append]
        by_cases hall : more.length = 6 - got.length
        · rw [if_pos hall, if_pos (by omega)]
        · rw [if_neg hall, if_neg (by omega), Nat.sub_sub]
      exact hplace ▸ hmore
    · rw [htook.stream, hstream, hbytes, List.append_assoc]
  cases hv.read_part (.neg_data 6) hbuf hlt with
  | waits hn _ hrest hv' hbuf' =>
    exact .waits hn (hsynced [] hv' (Nat.zero_le _) hrest.symm (by rwa [List.append_nil]))
  | short more hn _ _ hbytes hv' hbuf' hle => exact .waits hn (hsynced more hv' hle hbytes hbuf')
  | whole more hn hsize _ hbytes hv' hbuf' hheld =>
    subst hheld
    have hall := htells.data hpos htook hbytes (by simp [hsize])
    rw [if_pos (by simpa using hsize)] at hall
    refine .whole more (v.read_part (.neg_data 6) 6).2.env.rx.bytes b0 b1 ?_ hsize hv' hbuf' ?_ hall
      (hframe.neg_data.trans hneg) (hframe.noise_msg.trans hunset)
    · rw [hn, hsize]
      decide
    · rw [hstream, ← hbytes]
      rfl

/-- A buffer with all of the header, which came in by more than one read, has no room. -/
theorem read_part_of_full {b : Buf} {size : Nat} (part : Part) (hbuf : w.nc.buf = some b) (hroom : b.room = 0)
    (hpos : 0 < size) : w.read_part part size = (NGX_ERROR, w.setBuf (some b)) := by
  have hdata : w.read_handshake_data part size = (NGX_ERROR, w.setBuf (some b)) := by
    unfold read_handshake_data
    rw [hbuf]
    unfold fill_buf
    simp only [hroom, if_true]
  unfold read_part
  rw [if_pos (by omega : size ≠ 0), hdata]
  rfl

/-- The negotiation part of the first message. -/
theorem NegSteps.headerPart (hsteps : NegSteps NGX_NSOC_1MSG_NEG_DATA_SIZE w r) (hw : w.Synced N turn 0)
    (hphase : w.nc.handshake_phase = .none_phase) (hrole : w.nc.noise_role = .server) :
    HeaderPart N turn w.stream r := by
  have hframe := hsteps.frame
  have hrole' := hframe.reads.noise_role.trans hrole
  have hphase' := hframe.reads.handshake_phase.trans hphase
  cases hw.due with
  | header _ _ hinc hclient hbuf htells hstream =>
    cases hsteps.negRead hw.steady hinc with
    | waits hn hv hsize hheld _ hbuf' htook =>
      refine .waits hn ⟨hv, (hframe.other .noise_msg (by simp)).trans hw.unset, hframe.msg_num.trans hw.msg_num, ?_,
        .header hphase' rfl hsize ?_ (hbuf'.trans hbuf) (htells.held htook hheld) ?_⟩
      · intro hclient'
        cases hrole'.symm.trans hclient'
      · intro hclient'
        cases hrole'.symm.trans hclient'
      · rw [htook.stream, hstream]
        exact hheld.symm
    | refused b0 b1 rest hn hbytes hne u htook htrace =>
      have hrefused := (htells.len htook).check rfl htrace
      exact .failed hn hrefused.order hrefused.accepted
    | got v b0 b1 hbytes heq hv hframe' hneg' hbuf' htaken hr u htook htrace hrx =>
      have hchecked : v.Tells 0 [(6, some 6)] (.header []) := (htells.len htook).check rfl htrace
      have hv_stream : v.stream = w.stream := (stream_check htrace hrx).trans htook.stream
      have hfront : v.stream = b0 :: b1 :: ([] ++ v.env.rx.bytes) := hv_stream.trans (hstream.trans hbytes)
      subst hr
      rw [← hv_stream]
      exact hv.header_part ((hframe'.other .noise_msg (by simp)).trans hw.unset)
        (hframe'.msg_num.trans hw.msg_num) (hframe'.reads.handshake_phase.trans hphase)
        (hframe'.reads.noise_role.trans hrole) hneg' (.inl ⟨hbuf'.trans hbuf, rfl⟩) (by decide) hchecked hfront
  | in_header got b0 b1 _ _ _ hneg hbuf hle htells hstream =>
    cases hsteps with
    | known size hsize hr =>
      obtain rfl : 6 = size := SizeField.known.inj (hneg.symm.trans hsize)
      subst hr
      rcases hle.lt_or_eq with hlt | hfull
      · exact hw.steady.header_part hw.unset hw.msg_num hphase hrole hneg (.inr hbuf) hlt htells hstream
      · rw [read_part_of_full _ hbuf (by simp [Buf.room, hfull]) (by decide)]
        exact .failed rfl htells.order htells.accepted
    | again _ _ hsize | error _ _ hsize | mismatch _ hsize | accepted _ hsize =>
      rw [hneg] at hsize
      cases hsize
  | message _ hphase'' =>
    rw [hphase] at hphase''
    cases hphase''

/-- The header of an honest client. -/
theorem HeaderFirst.header {got rest : List UInt8} {b0 b1 : UInt8} (h : w.HeaderFirst)
    (hstream : w.stream = b0 :: b1 :: (got ++ rest)) (hsize : got.length = 6) :
    FirstHdr.ofBytes got = some proxy_prologue.header := by
  have hfront : b0 :: b1 :: got = proxy_prologue.headerBytes := by
    refine h _ ⟨rest, hstream.symm⟩ ?_
    simp [hsize]
  have hgot : got = proxy_prologue.headerBytes.drop 2 := by
    rw [← hfront]
    rfl
  rw [hgot]
  decide

/-- The phase `NGX_NSOC_HANDSHAKE_NONE_PHASE`. -/
theorem Synced.none (hN : N.InTurns turn) (hw : w.Synced N turn 0) (hphase : w.nc.handshake_phase = .none_phase)
    (hpeer : w.nc.noise_role = .server → w.HeaderFirst) (hstep : NoneStep N w flow) :
    Advances N turn w 0 flow := by
  cases hstep with
  | client hrole hstart =>
    cases hw.due with
    | header _ _ _ hclient _ htells =>
      have hneg := hclient hrole
      exact start_advances hN hw.steady hw.unset hw.msg_num (by rw [hneg]; rfl) hclient hw.client
        (.message (fun _ => hrole) htells) hstart
    | in_header _ _ _ _ _ hserver => cases hrole.symm.trans hserver
    | message _ hphase' => cases hphase.symm.trans hphase'
  | @neg_stopped r hrole hneg hn =>
    have hreads := hneg.frame.reads
    obtain ⟨n, v⟩ := r
    cases hneg.headerPart hw hphase hrole with
    | waits hagain hv =>
      obtain rfl : n = NGX_AGAIN := hagain
      exact .suspended 0 hv (hreads.speaks 0)
    | failed herror horder hcount =>
      obtain rfl : n = NGX_ERROR := herror
      exact .ended (by decide) horder hcount (by simp) (hreads.speaks 0)
    | whole _ _ _ _ hpos => exact absurd hn (by omega)
  | @version r q b first_hdr hrole hneg hn hbuf hhdr hversion hreply =>
    cases hneg.headerPart hw hphase hrole with
    | waits hagain => exact absurd hn (by rw [hagain]; decide)
    | failed herror => exact absurd hn (by rw [herror]; decide)
    | whole got rest b0 b1 _ hsize hv hbuf' hstream =>
      obtain rfl := Option.some.inj (hbuf'.symm.trans hbuf)
      have hheader := (hpeer hrole).header hstream hsize
      obtain rfl := Option.some.inj (hheader.symm.trans hhdr)
      exact absurd rfl hversion
  | @header r b first_hdr flow hrole hneg hn hbuf hhdr hversion hstart =>
    have hframe := hneg.frame
    have hreads := hframe.reads
    cases hneg.headerPart hw hphase hrole with
    | waits hagain => exact absurd hn (by rw [hagain]; decide)
    | failed herror => exact absurd hn (by rw [herror]; decide)
    | whole got rest b0 b1 _ hsize hv hbuf' hstream htells hneg' hunset =>
      have hserver : r.2.nc.noise_role = .server := hreads.noise_role.trans hrole
      have hclient : ∀ {P : Prop}, r.2.nc.noise_role = .client → P := by
        intro P hclient
        cases hserver.symm.trans hclient
      have hheld : r.2.nc.neg_data.held = [] := by
        rw [hneg']
        rfl
      have hadvances := start_advances (w := { r.2 with prologue := { r.2.prologue with header := first_hdr } }) hN
        (hv.congr rfl rfl) hunset (hframe.msg_num.trans hw.msg_num) hheld hclient hclient
        (.header rfl hserver (htells.of_trace rfl)) hstart
      exact hadvances.of_same hreads.noise_role hreads.tx

/-- The switch of a pass keeps an endpoint in step. -/
theorem Synced.phase {fuel : Nat} (hN : N.InTurns turn) (hw : w.Synced N turn k)
    (hpeer : w.nc.noise_role = .server → w.HeaderFirst) (hcond : w.Unbroken N) (h : w.phase N fuel = ok flow) :
    Advances N turn w k flow := by
  unfold Endpoint.phase at h
  cases hw.due with
  | header hphase hk | in_header _ _ _ hphase hk =>
    subst hk
    rw [hphase] at h
    exact hw.none hN hphase hpeer (none_phase_cases h)
  | message left hphase hstands hturn htold =>
    rw [hphase] at h
    cases hstands.place with
    | header hphase' | behind_len hphase' => cases hphase.symm.trans hphase'
    | message _ hat hlast hwrite =>
      exact hw.process hN hphase hat hlast hwrite hturn htold hcond (process_phase_cases h)

theorem Synced.tells (h : w.Synced N turn k) : InOrder w.trace ∧ accepted w.trace = k := by
  cases h.due with
  | header _ _ _ _ _ htells | in_header _ _ _ _ _ _ _ _ _ htells => exact ⟨htells.order, htells.accepted⟩
  | message _ _ _ _ htold =>
    cases htold with
    | header _ _ htells | message _ htells => exact ⟨htells.order, htells.accepted⟩

/-- A phase in which a read has to wait inside the noise part of a message puts an endpoint out of step. -/
theorem Synced.drifts {fuel : Nat} (hN : N.InTurns turn) (hw : w.Synced N turn k) (hbroken : ¬ w.Unbroken N)
    (h : w.phase N fuel = ok flow) :
    ∃ v, flow = .done (NGX_AGAIN, v) ∧ v.nc.msg_num ≠ number (accepted v.trace) := by
  obtain ⟨hphase, haction, rx, hrx, hbroken⟩ := by
    simpa only [Unbroken, not_forall] using hbroken
  unfold Endpoint.phase at h
  cases hw.due with
  | header hphase' | in_header _ _ _ hphase' => cases hphase.symm.trans hphase'
  | message left _ hstands hturn htold =>
    rw [hphase] at h
    cases hstands.place with
    | header hphase' | behind_len hphase' => cases hphase.symm.trans hphase'
    | message _ hat hlast hwrite =>
      have hdrifts : ∀ {r : Int × Endpoint S}, MessageSteps N (w.setLast 0) r →
          r.1 = NGX_AGAIN ∧ r.2.nc.msg_num ≠ number (accepted r.2.trace) :=
        hw.drifts_of_read hN hat hlast hturn hw.tells.2 haction hrx hbroken
      cases process_phase_cases h with
      | @read_stopped r _ hsteps =>
        obtain ⟨hagain, hnum⟩ := hdrifts hsteps
        obtain ⟨n, v⟩ := r
        obtain rfl : n = NGX_AGAIN := hagain
        exact ⟨v, rfl, hnum⟩
      | read_done _ hsteps hok =>
        rw [(hdrifts hsteps).1] at hok
        cases hok
      | write_failed hother | write_new hother | write_old hother | split hother =>
        rw [haction] at hother
        cases hother
      | failed hother => exact absurd haction hother.2.1

end

end Endpoint

end ngx_nsoc
