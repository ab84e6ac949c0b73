import NoiseSocket.Prologue.Started

open Exec Exec.Result

namespace ngx_nsoc

variable {S : Type}

/-- The fields that `ngx_nsoc_noiseserver_merge_conf` sets, and that no connection writes. -/
structure PrologueData.Labelled (p : PrologueData) : Prop where
  label : p.strPrologue = proxy_prologue.strPrologue
  len : p.header_len = proxy_prologue.header_len

/-- The header is taken over, and the rest of the prologue is the configuration's. -/
theorem PrologueData.Labelled.with_header {p : PrologueData} (h : p.Labelled) (header : FirstHdr) :
    PrologueData.Labelled { p with header } := ⟨h.label, h.len⟩

theorem PrologueData.Labelled.bytes {p : PrologueData} (h : p.Labelled) :
    p.bytes = proxy_prologue.strPrologue ++ neg_len_bytes ++ p.header.bytes := by
  have hlen : hostBytes p.header_len = neg_len_bytes := by
    rw [h.len]
    rfl
  rw [PrologueData.bytes, PrologueData.headerBytes, h.label, hlen, List.append_assoc]

namespace Endpoint

/-- A server has passed a prologue to noise-c, after it has received its last six bytes. -/
structure ServerCall (N : NoiseC S) (earlier : List Obs) (bytes : List UInt8) (w : Endpoint S) :
    Prop where
  call : InitCall N w earlier bytes
  role : w.nc.noise_role = .server
  labelled : w.prologue.Labelled
  version : w.prologue.header.version_id = NGX_NSOC_VERSION_ID
  received : received earlier = neg_len_bytes ++ w.prologue.header.bytes

/-- A server of which every prologue consists of what came in on its own connection. -/
structure Served (N : NoiseC S) (w : Endpoint S) : Prop where
  role : w.nc.noise_role = .server
  labelled : w.prologue.Labelled
  handed : Handed (fun earlier bytes => ∃ v, ServerCall N earlier bytes v) w.trace

theorem Served.quiet {N : NoiseC S} {w v : Endpoint S} (h : Served N w) (hquiet : Quiet w v) :
    Served N v :=
  ⟨hquiet.role.trans h.role, by rw [hquiet.prologue]; exact h.labelled, hquiet.handed h.handed⟩

/-- The reply to a message of another version, when the socket did not take all of it. -/
theorem version_error_refused {N : NoiseC S} {w v : Endpoint S} {n : Int}
    (h : w.version_error N = ok (n, v)) :
    Quiet w v ∧ (n = NGX_AGAIN → ∃ b, v.nc.buf = some b ∧ err_message <+: b.bytes) := by
  simp only [version_error, bind_eq_ok_iff] at h
  obtain ⟨⟨code, b, u⟩, hmsg, hrest⟩ := h
  have hquiet := (w.reads_setMsgNum NGX_NSOC_2MSG_ERR).quiet.trans (quiet_of_write hmsg)
  obtain ⟨-, rfl | ⟨rfl, rfl⟩⟩ := (write_message_cases hmsg).2.of_error rfl
  · rw [if_pos (by simp)] at hrest
    cases hrest
    exact ⟨hquiet, by simp⟩
  rw [if_neg (by simp)] at hrest
  dsimp only at hrest
  obtain ⟨hsent, -⟩ := u.ngx_send_frame (err_message.drop 0)
  rw [hsent] at hrest
  have hsame : ∀ {x : Endpoint S}, x.prologue = u.prologue → x.nc.noise_role = u.nc.noise_role →
      x.nc.handshake_phase = u.nc.handshake_phase → x.trace = u.trace → Quiet w x := by
    intro x hprologue hrole hphase htrace
    exact hquiet.trans (quiet_of_trace [] hprologue hrole hphase htrace (by simp))
  split_ifs at hrest
  · obtain ⟨-, heq⟩ | heq := write_again_cases
      (Endpoint.setHandlers { u with env := { u.env with
        sends := (u.ngx_send (err_message.drop 0)).2.env.sends
        tx := (u.ngx_send (err_message.drop 0)).2.env.tx } } .handshake_handler)
      ⟨err_message, 0, message_room NGX_NSOC_2MSG_NEG_DATA_ERR_SIZE⟩
    · rw [heq] at hrest
      cases hrest
      exact ⟨hsame rfl rfl rfl rfl, by simp⟩
    · rw [heq] at hrest
      cases hrest
      exact ⟨hsame rfl rfl rfl rfl, fun _ => ⟨_, rfl, List.prefix_rfl⟩⟩
  · cases hrest
    exact ⟨hsame rfl rfl rfl rfl, by simp⟩

/-- How the phase `NGX_NSOC_HANDSHAKE_NONE_PHASE` leaves a server. -/
def ServedFlow (N : NoiseC S) : ControlFlow (Endpoint S) (Int × Endpoint S) → Prop
  | .cont w => Served N w ∧ w.nc.handshake_phase ≠ .none_phase
  | .done (n, w) => Served N w ∧ (n = NGX_AGAIN → w.nc.handshake_phase = .none_phase → w.Waiting)

theorem ServedFlow.served {N : NoiseC S} {flow : ControlFlow (Endpoint S) (Int × Endpoint S)}
    (h : ServedFlow N flow) : Served N (flowState flow) := by
  cases flow with
  | cont w => exact h.1
  | done r => exact h.1

/-- The handshake starts with the header that was received. -/
theorem Served.start {N : NoiseC S} {w : Endpoint S} (h : Served N w)
    (hversion : w.prologue.header.version_id = NGX_NSOC_VERSION_ID)
    (hreceived : received w.trace = neg_len_bytes ++ w.prologue.header.bytes)
    {flow : ControlFlow (Endpoint S) (Int × Endpoint S)} (hflow : w.start_handshake N = ok flow) :
    ServedFlow N flow := by
  have hhanded := StartOutcome.handed hflow h.handed fun hcall =>
    ⟨w, hcall, h.role, h.labelled, hversion, hreceived⟩
  cases start_handshake_cases hflow with
  | @failed v hframe =>
    refine ⟨⟨?_, ?_, hhanded⟩, by simp⟩
    · exact (congrArg NoiseConnection.noise_role hframe.nc).trans h.role
    · exact (congrArg PrologueData.Labelled hframe.prologue).mpr h.labelled
  | @started v hframe _ =>
    refine ⟨⟨h.role, ?_, hhanded⟩, by simp⟩
    exact (congrArg PrologueData.Labelled hframe.prologue).mpr h.labelled

theorem Served.none_phase {N : NoiseC S} {fuel : Nat} {w : Endpoint S} (h : Served N w)
    (hwaiting : w.Waiting) {flow : ControlFlow (Endpoint S) (Int × Endpoint S)}
    (hflow : w.none_phase N fuel = ok flow) : ServedFlow N flow := by
  simp only [Endpoint.none_phase, h.role, bind_eq_ok_iff] at hflow
  obtain ⟨⟨n, v⟩, hread, hrest⟩ := hflow
  have hv : Served N v := h.quiet (read_negotiation_cases hread).frame.reads.quiet
  have hneg := hwaiting.read_negotiation hread
  dsimp only at hrest
  by_cases hn : n ≤ 0
  · rw [if_pos hn] at hrest
    cases hrest
    refine ⟨hv, fun hagain _ => ?_⟩
    cases hneg with
    | waits _ hwaits => exact hwaits
    | failed herror =>
      rw [hagain] at herror
      cases herror
    | complete hpos | refused hpos => exact absurd hpos (Int.not_lt.mpr hn)
  rw [if_neg hn] at hrest
  have hreply : ∀ {m : Int} {u : Endpoint S}, v.version_error N = ok (m, u) →
      v.nc.neg_data = .known NGX_NSOC_1MSG_NEG_DATA_SIZE → ServedFlow N (.done (m, u)) := by
    intro m u hreply hsize
    obtain ⟨hquiet, hagain⟩ := version_error_refused hreply
    refine ⟨hv.quiet hquiet, fun hm _ => ?_⟩
    obtain ⟨b, hbuf, herr⟩ := hagain hm
    exact .refused ((version_error_cases hreply).1.neg_data.trans hsize) b hbuf herr
  cases hneg with
  | waits hagain | failed herror => simp_all
  | complete hpos hsize b hbuf hlength hreceived =>
    simp only [show v.nc.buf = some b from hbuf, Option.bind_some] at hrest
    cases hhdr : FirstHdr.ofBytes b.bytes with
    | none =>
      rw [hhdr] at hrest
      cases hrest
    | some first_hdr =>
      rw [hhdr] at hrest
      dsimp only at hrest
      by_cases hversion : first_hdr.version_id = NGX_NSOC_VERSION_ID
      · rw [if_neg (not_not.mpr hversion)] at hrest
        have hlabelled := hv.labelled.with_header first_hdr
        have hstart : Served N { v with prologue := { v.prologue with header := first_hdr } } :=
          ⟨hv.role, hlabelled, hv.handed⟩
        refine hstart.start hversion ?_ hrest
        rw [FirstHdr.bytes_of_ofBytes hhdr hlength]
        exact hreceived
      · rw [if_pos hversion, bind_eq_ok_iff] at hrest
        obtain ⟨q, herror, hdone⟩ := hrest
        cases hdone
        exact hreply herror hsize
  | refused hpos hsize b hbuf herr =>
    simp only [show v.nc.buf = some b from hbuf, Option.bind_some] at hrest
    cases hhdr : FirstHdr.ofBytes b.bytes with
    | none =>
      rw [hhdr] at hrest
      cases hrest
    | some first_hdr =>
      rw [hhdr] at hrest
      dsimp only at hrest
      rw [if_pos (FirstHdr.version_of_err_message hhdr herr), bind_eq_ok_iff] at hrest
      obtain ⟨q, herror, hdone⟩ := hrest
      cases hdone
      exact hreply herror hsize

/-- A server between two passes. -/
structure Serving (N : NoiseC S) (w : Endpoint S) : Prop extends Served N w where
  waiting : w.nc.handshake_phase = .none_phase → w.Waiting

theorem Serving.process_phase {N : NoiseC S} {fuel : Nat} {w : Endpoint S} (h : Served N w)
    (hphase : w.nc.handshake_phase ≠ .none_phase)
    {flow : ControlFlow (Endpoint S) (Int × Endpoint S)} (hflow : w.process_phase N fuel = ok flow) :
    ServedFlow N flow := by
  have hquiet := (process_phase_cases hflow).quiet
  cases flow with
  | cont v => exact ⟨h.quiet hquiet, hquiet.phase hphase⟩
  | done r => exact ⟨h.quiet hquiet, fun _ hnone => absurd hnone (hquiet.phase hphase)⟩

/-- One pass of `ngx_nsoc_do_handshake_process`. -/
theorem Serving.pass {N : NoiseC S} {fuel : Nat} {w : Endpoint S} (h : Serving N w)
    {flow : ControlFlow (Endpoint S) (Int × Endpoint S)}
    (hflow : w.do_handshake_process_body N fuel = ok flow) : ServedFlow N flow := by
  unfold do_handshake_process_body at hflow
  cases hphase : w.nc.handshake_phase with
  | none_phase =>
    simp only [hphase, bind_eq_ok_iff] at hflow
    obtain ⟨step, hnone, hrest⟩ := hflow
    have hstep := h.toServed.none_phase (h.waiting hphase) hnone
    cases step with
    | done r =>
      cases hrest
      exact hstep
    | cont v => exact Serving.process_phase hstep.1 hstep.2 hrest
  | process_phase =>
    rw [hphase] at hflow
    exact Serving.process_phase h.toServed (by simp [hphase]) hflow
  | end_phase =>
    rw [hphase] at hflow
    cases hflow
    exact ⟨h.toServed, by simp [hphase]⟩

/-- A whole step of the handshake of a server. -/
theorem Serving.do_handshake_process {N : NoiseC S} {fuel : Nat} {w : Endpoint S} (h : Serving N w)
    {r : Int × Endpoint S} (hcall : w.do_handshake_process N fuel = ok r) : ServedFlow N (.done r) := by
  refine loop_invariant (Serving N) (fun r => ServedFlow N (.done r)) ?_ ?_ h hcall
  · intro v next hv hnext
    obtain ⟨hserved, hphase⟩ := hv.pass hnext
    exact ⟨hserved, fun hnone => absurd hnone hphase⟩
  · exact fun v value hv hvalue => hv.pass hvalue

/-- What may happen to a connection between two steps of its handshake: the environment, the
memory, the keys and the flags of the events change. -/
structure Resumed (w v : Endpoint S) : Prop where
  nc : v.nc = { w.nc with noise_ctx := v.nc.noise_ctx, handler := v.nc.handler }
  noise : v.noise = w.noise
  prologue : v.prologue = w.prologue
  eof : v.c.read.eof = w.c.read.eof
  tx : v.env.tx = w.env.tx
  trace : v.trace = w.trace

theorem Resumed.quiet {w v : Endpoint S} (h : Resumed w v) : Quiet w v :=
  quiet_of_trace [] h.prologue (by rw [h.nc]) (by rw [h.nc]) h.trace (by simp)

theorem Resumed.rests {w v : Endpoint S} (h : Resumed w v) : Rests w v :=
  ⟨h.trace, by rw [h.nc], by rw [h.nc], h.eof⟩

theorem Waiting.with_prologue {w : Endpoint S} (hw : w.Waiting) (prologue : PrologueData) :
    Waiting { w with prologue } :=
  hw.congr ⟨rfl, rfl, rfl, rfl⟩

theorem Fresh.waiting {w : Endpoint S} (h : w.Fresh) : w.Waiting := by
  obtain ⟨ctx, buffer_size, role, buffer, hnc⟩ := h.nc
  refine .length (.unset ?_ ?_) ?_
  · rw [hnc]
    rfl
  · rw [h.trace]
    rfl
  · rw [hnc]
    rfl

end Endpoint

/-- Connections of one server configuration: they share one prologue. A connection is `live`
until its handshake is over. -/
structure Servers (ι S : Type) where
  prologue : PrologueData
  conn : ι → Endpoint S
  live : ι → Bool

namespace Servers

open Endpoint

variable {ι : Type}

/-- A connection as its own steps see it. -/
def view (sys : Servers ι S) (i : ι) : Endpoint S := { sys.conn i with prologue := sys.prologue }

/-- What holds of a connection, whatever the others do. -/
structure Kept (N : NoiseC S) (sys : Servers ι S) (i : ι) : Prop where
  served : Served N (sys.view i)
  waiting : sys.live i = true → (sys.conn i).nc.handshake_phase = .none_phase → (sys.conn i).Waiting

theorem Kept.serving {N : NoiseC S} {sys : Servers ι S} {i : ι} (h : Kept N sys i)
    (hlive : sys.live i = true) : Serving N (sys.view i) :=
  ⟨h.served, fun hphase => Waiting.with_prologue (h.waiting hlive hphase) _⟩

variable [DecidableEq ι]

/-- What a step of connection `i` leaves behind. -/
def put (sys : Servers ι S) (i : ι) (w : Endpoint S) (live : Bool) : Servers ι S where
  prologue := w.prologue
  conn := Function.update sys.conn i w
  live := Function.update sys.live i live

/-- The runs of a server configuration: the handshakes take their steps in any order.
`started` is a step that has passed the prologue and does not return any more. -/
inductive Reachable (N : NoiseC S) : Servers ι S → Prop where
  | start {sys : Servers ι S} (hprologue : sys.prologue = server_prologue)
      (hfresh : ∀ i, (sys.conn i).Fresh) (hrole : ∀ i, (sys.conn i).nc.noise_role = .server) :
      Reachable N sys
  | handshake {sys : Servers ι S} {i : ι} {fuel : Nat} {rc : Int} {w : Endpoint S}
      (hreach : Reachable N sys) (hlive : sys.live i = true)
      (hcall : (sys.view i).do_handshake_process N fuel = ok (rc, w)) :
      Reachable N (sys.put i w (rc = NGX_AGAIN))
  | started {sys : Servers ι S} {i : ι} {fuel : Nat} {w : Endpoint S}
      (hreach : Reachable N sys) (hlive : sys.live i = true)
      (hphase : (sys.conn i).nc.handshake_phase = .none_phase)
      (hcall : (sys.view i).none_phase N fuel = ok (.cont w)) : Reachable N (sys.put i w false)
  | resumed {sys : Servers ι S} {i : ι} {w : Endpoint S} (hreach : Reachable N sys)
      (hresumed : Resumed (sys.view i) w) : Reachable N (sys.put i w (sys.live i))

theorem view_put_self (sys : Servers ι S) (i : ι) (w : Endpoint S) (live : Bool) :
    (sys.put i w live).view i = w := by
  simp [view, put]

/-- A step of another connection changes nothing but the shared prologue. -/
theorem Kept.put_other {N : NoiseC S} {sys : Servers ι S} {i j : ι} (h : Kept N sys j) (hne : j ≠ i)
    {w : Endpoint S} (hw : w.prologue.Labelled) (live : Bool) : Kept N (sys.put i w live) j := by
  have hconn : (sys.put i w live).conn j = sys.conn j := Function.update_of_ne hne _ _
  have hlive : (sys.put i w live).live j = sys.live j := Function.update_of_ne hne _ _
  refine ⟨⟨?_, hw, ?_⟩, ?_⟩
  · rw [view, hconn]
    exact h.served.role
  · rw [view, hconn]
    exact h.served.handed
  · rw [hconn, hlive]
    exact h.waiting

/-- One step, seen by every connection. -/
theorem kept_put {N : NoiseC S} {sys : Servers ι S} {i : ι} (h : ∀ j, Kept N sys j)
    {w : Endpoint S} {live : Bool} (hw : Served N w)
    (hwaiting : live = true → w.nc.handshake_phase = .none_phase → w.Waiting) (j : ι) :
    Kept N (sys.put i w live) j := by
  by_cases hij : j = i
  · subst hij
    refine ⟨by rwa [view_put_self], ?_⟩
    simpa [put] using hwaiting
  · exact (h j).put_other hij hw.labelled live

/-- In every interleaving every connection has handed over what came in on itself. -/
theorem Reachable.kept {N : NoiseC S} {sys : Servers ι S} (h : sys.Reachable N) (j : ι) :
    Kept N sys j := by
  induction h generalizing j with
  | @start sys hprologue hfresh hrole =>
    have hlabelled : sys.prologue.Labelled := by
      rw [hprologue]
      exact ⟨rfl, rfl⟩
    refine ⟨⟨hrole j, hlabelled, ?_⟩, fun _ _ => (hfresh j).waiting⟩
    simp only [view, (hfresh j).trace, Handed]
  | handshake hreach hlive hcall ih =>
    have hflow := ((ih _).serving hlive).do_handshake_process hcall
    exact kept_put ih hflow.1 (fun hrc => hflow.2 (of_decide_eq_true hrc)) j
  | started hreach hlive hphase hcall ih =>
    have hflow := (ih _).served.none_phase ((ih _).serving hlive |>.waiting hphase) hcall
    exact kept_put ih hflow.1 (by simp) j
  | @resumed sys i w hreach hresumed ih =>
    refine kept_put ih ((ih i).served.quiet hresumed.quiet) (fun hlive hphase => ?_) j
    have hnone : (sys.view i).nc.handshake_phase = .none_phase := by
      rw [← hphase, hresumed.nc]
    exact (((ih i).serving hlive).waiting hnone).congr hresumed.rests

end Servers

end ngx_nsoc
