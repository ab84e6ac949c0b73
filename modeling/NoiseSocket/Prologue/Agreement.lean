import NoiseSocket.Prologue.Peer

open Exec Exec.Result

namespace ngx_nsoc

variable {ι S T : Type} [DecidableEq ι]

namespace Endpoint

open ngx_noise_protocol

/-- noise-c has taken the four ids of the header, so none of them is zero. -/
theorem InitCall.ids {N : NoiseC S} (hN : N.KnownIds) {w : Endpoint S} {earlier : List Obs}
    {bytes : List UInt8} (h : InitCall N w earlier bytes) :
    w.prologue.header.dh_id ≠ 0 ∧ w.prologue.header.cipher_id ≠ 0 ∧
      w.prologue.header.hash_id ≠ 0 ∧ w.prologue.header.pattern_id ≠ 0 := by
  obtain ⟨s, hs⟩ := h.accepted
  refine ⟨fun hzero => hN.dh _ _ _ ?_ hs, fun hzero => hN.cipher _ _ _ ?_ hs,
    fun hzero => hN.hash _ _ _ ?_ hs, fun hzero => hN.pattern _ _ _ ?_ hs⟩
  all_goals
    simp only [protocol_id, hzero]
    decide

/-- A server that has received its header from this code in the client role has the prologue of
the client. -/
theorem eq_proxy_prologue {N : NoiseC S} (hN : N.KnownIds) {w : Endpoint S}
    {earlier : List Obs} {bytes : List UInt8} (h : ServerCall N earlier bytes w) {tx : List UInt8}
    (htx : Openings tx) (hpeer : received earlier <+: tx) : w.prologue = proxy_prologue := by
  obtain ⟨hdh, hcipher, hhash, hpattern⟩ := h.call.ids hN
  have hlabelled := h.labelled
  have hversion := h.version
  rw [h.received] at hpeer
  generalize w.prologue = prologue at *
  obtain ⟨strPrologue, header_len, version_id, dh, cipher, hash, pattern⟩ := prologue
  obtain ⟨rfl, rfl⟩ := hlabelled
  obtain rfl : version_id = NGX_NSOC_VERSION_ID := hversion
  have hversion_bytes : hostBytes NGX_NSOC_VERSION_ID = [0, 1] := by decide
  rw [FirstHdr.bytes, hversion_bytes] at hpeer
  have heq := htx.header_eq hpeer hdh hcipher hhash hpattern
  have hheader : proxy_prologue.headerBytes = [0, 6, 0, 1, 1, 2, 2, 9] := by decide
  simp only [hheader, List.cons.injEq, true_and, and_true] at heq
  obtain ⟨rfl, rfl, rfl, rfl⟩ := heq
  rfl

/-- A client has passed the same prologue to noise-c as the server that passed `bytes` when it
had observed `earlier`, and both the same protocol id. -/
structure Agreed (N : NoiseC S) (M : NoiseC T) (earlier : List Obs) (bytes : List UInt8)
    (client : Endpoint T) : Prop where
  installed : .set_prologue bytes ∈ client.trace
  same : ∀ bytes', .set_prologue bytes' ∈ client.trace → bytes' = bytes
  protocol_id : ∀ later' earlier', client.trace = later' ++ .set_prologue bytes :: earlier' →
    ∃ (w : Endpoint S) (v : Endpoint T), InitCall N w earlier bytes ∧ w.nc.noise_role = .server ∧
      InitCall M v earlier' bytes ∧ v.nc.noise_role = .client ∧
      ngx_noise_protocol.protocol_id w.prologue = ngx_noise_protocol.protocol_id v.prologue

theorem agreed_of_serverCall {N : NoiseC S} {M : NoiseC T} (hN : N.KnownIds) {w : Endpoint S}
    {earlier : List Obs} {bytes : List UInt8} (h : ServerCall N earlier bytes w)
    {client : Endpoint T} (hclient : Spoken M client) (hpeer : received earlier <+: client.env.tx) :
    Agreed N M earlier bytes client := by
  have hprologue := eq_proxy_prologue hN h hclient.sent hpeer
  obtain rfl : proxy_prologue.bytes = bytes := by
    rw [← h.call.prologue, hprologue]
  have hcalled : ∀ {later' earlier' bytes'},
      client.trace = later' ++ .set_prologue bytes' :: earlier' → ∃ v, ClientCall M earlier' bytes' v := by
    intro later' earlier' bytes' htrace
    have hhanded := hclient.handed
    rw [htrace] at hhanded
    exact hhanded.apply
  refine ⟨hclient.installed fun hphase => ?_, fun bytes' hmem => ?_, fun later' earlier' htrace => ?_⟩
  · have hnil := hclient.silent hphase
    rw [hnil, h.received] at hpeer
    exact absurd hpeer.length_le (by simp [neg_len_bytes])
  · obtain ⟨later', earlier', htrace⟩ := List.append_of_mem hmem
    obtain ⟨v, hv⟩ := hcalled htrace
    rw [← hv.call.prologue, hv.prologue]
  · obtain ⟨v, hv⟩ := hcalled htrace
    exact ⟨w, v, h.call, h.role, hv.call, hv.role, by rw [hprologue, hv.prologue]⟩

end Endpoint

namespace Servers

open Endpoint

/-- What the handshakes of one server configuration pass to noise-c as prologue, in any
interleaving: the label, and the length and the six bytes that came in on the same connection.
From a peer that runs this code these are the bytes of the peer's own prologue. -/
theorem prologue_of_reachable (N : NoiseC S) {sys : Servers ι S} (h : sys.Reachable N) (i : ι)
    {later earlier : List Obs} {bytes : List UInt8}
    (htrace : (sys.conn i).trace = later ++ .set_prologue bytes :: earlier) :
    (∃ six, six.length = NGX_NSOC_1MSG_NEG_DATA_SIZE ∧ received earlier = neg_len_bytes ++ six ∧
      bytes = proxy_prologue.strPrologue ++ neg_len_bytes ++ six) ∧
    (N.KnownIds → ∀ (M : NoiseC T) (live : Bool) (client : Endpoint T), ClientRun M live client →
      received earlier <+: client.env.tx → Agreed N M earlier bytes client) := by
  have hhanded := (h.kept i).served.handed
  rw [show (sys.view i).trace = (sys.conn i).trace from rfl, htrace] at hhanded
  obtain ⟨w, hw⟩ := hhanded.apply
  refine ⟨⟨w.prologue.header.bytes, rfl, hw.received, ?_⟩, fun hN M live client hclient hpeer => ?_⟩
  · rw [← hw.call.prologue, hw.labelled.bytes]
  · exact agreed_of_serverCall hN hw hclient.spoken.1 hpeer

/-- Two servers that share a prologue; one of them has got the first message of a client. -/
theorem prologue_of_reachable_first_message :
    ∃ (sys : Servers Bool Pattern) (client : Endpoint Pattern) (earlier : List Obs),
      sys.Reachable checked_xx ∧ ClientRun checked_xx true client ∧
      received earlier = proxy_prologue.headerBytes ∧
      Agreed checked_xx checked_xx earlier proxy_prologue.bytes client := by
  have hserver : ∃ w, (pattern_server [.data 0 ([6] ++ proxy_prologue.header.bytes ++ [0, 32] ++
        Pattern.message 0)] false).do_handshake_process checked_xx 8 = ok (NGX_AGAIN, w) ∧
      w.trace = w.trace.take 5 ++ .set_prologue proxy_prologue.bytes :: w.trace.drop 6 ∧
      received (w.trace.drop 6) = proxy_prologue.headerBytes := by
    refine ⟨_, rfl, ?_⟩
    decide
  have hclient : ∃ v, (Endpoint.create ⟨some ⟨0, 1⟩, none⟩ NOISE_PROTOCOL_PAYLOAD_SIZE .client false
      (⟨.initiator, 0⟩ : Pattern) proxy_prologue ⟨fun _ => 0, []⟩
      (.quiet [] false)).do_handshake_process checked_xx 8 = ok (NGX_AGAIN, v) ∧
      proxy_prologue.headerBytes <+: v.env.tx := by
    refine ⟨_, rfl, ?_⟩
    decide
  obtain ⟨w, hcall, htrace, hreceived⟩ := hserver
  obtain ⟨v, hcall', htx⟩ := hclient
  have hrun : ClientRun checked_xx true v :=
    .handshake (.start (Endpoint.fresh_create _ _ _ _ _ _ _ _) rfl rfl rfl) hcall'
  let idle : Servers Bool Pattern := ⟨server_prologue, fun _ => pattern_server
    [.data 0 ([6] ++ proxy_prologue.header.bytes ++ [0, 32] ++ Pattern.message 0)] false, fun _ => true⟩
  have hidle : idle.Reachable checked_xx :=
    .start rfl (fun _ => Endpoint.fresh_create _ _ _ _ _ _ _ _) fun _ => rfl
  have hreach : (idle.put true w true).Reachable checked_xx := .handshake hidle rfl hcall
  refine ⟨_, v, _, hreach, hrun, hreceived, ?_⟩
  have hconn : ((idle.put true w true).conn true).trace =
      w.trace.take 5 ++ .set_prologue proxy_prologue.bytes :: w.trace.drop 6 := by
    simpa only [put, Function.update_self] using htrace
  refine (prologue_of_reachable checked_xx hreach true hconn).2 knownIds_checked_xx _ _ v hrun ?_
  rwa [hreceived]

end Servers

end ngx_nsoc
