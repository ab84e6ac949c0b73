import NoiseSocket.Handler.Dialogue.Cuts
import NoiseSocket.Handler.InStep.Accounts

open Exec Exec.Result

namespace ngx_nsoc

variable {S : Type}

section

variable {k : Nat}

theorem isMessage_number (k : Nat) : Endpoint.IsMessage (number k) := by
  unfold number
  split
  · exact .inr (.inl rfl)
  · exact .inr (.inr rfl)
  · exact .inl rfl

theorem next_num_number (hk : k < 3) : Endpoint.next_num (number k) = number (k + 1) := by
  obtain rfl | rfl | rfl : k = 0 ∨ k = 1 ∨ k = 2 := by omega
  all_goals rfl

/-- Only the first message has the number `NGX_NSOC_1MSG`. -/
theorem number_eq_first (hk : k < 3) : number k = NGX_NSOC_1MSG ↔ k = 0 := by
  obtain rfl | rfl | rfl : k = 0 ∨ k = 1 ∨ k = 2 := by omega
  all_goals decide

/-- The messages that follow each other have different numbers. -/
theorem number_succ_ne (hk : k < 3) : number (k + 1) ≠ number k := by
  obtain rfl | rfl | rfl : k = 0 ∨ k = 1 ∨ k = 2 := by omega
  all_goals decide

theorem neg_size_later (hk : k < 3) (hne : k ≠ 0) : neg_size k = 0 := by
  obtain rfl | rfl : k = 1 ∨ k = 2 := by omega
  all_goals rfl

/-- A responder begins by reading. -/
theorem NoiseC.InTurns.respondersRead {N : NoiseC S} {turn : Role → Nat → S → Prop} (hN : N.InTurns turn) :
    Endpoint.RespondersRead N := by
  intro w v hrole hinit hwrite
  obtain ⟨-, hwriter⟩ := hN.writes _ _ _ (hN.starts w v hinit) hwrite
  rw [hrole] at hwriter
  cases hwriter

end

namespace Position

/-- The place behind a part of the header. -/
def header (got : List UInt8) : Position :=
  if got.length = 6 then .len .noise_msg [] else .data .neg_data 6 (6 - got.length)

end Position

namespace Endpoint

/-- What an endpoint has seen of the message `k`, which is due, where only the noise part of that is left, or
at most a byte of its negotiation length has come in. -/
inductive Told (w : Endpoint S) (k : Nat) : Prop where
  | header (hk : k = 0) (hrole : w.nc.noise_role = .server) (htells : w.Tells k [(6, some 6)] (.len .noise_msg []))
  | message (hfirst : k = 0 → w.nc.noise_role = .client)
      (htells : w.Tells k [] (.len .neg_data w.nc.neg_data.held))

/-- How much of the message `k` an endpoint has taken from the stream. A header of which a part has come in is
never taken over. -/
inductive Due (N : NoiseC S) (turn : Role → Nat → S → Prop) (w : Endpoint S) (k : Nat) : Prop where
  | header (hphase : w.nc.handshake_phase = .none_phase) (hk : k = 0) (hneg : w.nc.neg_data.incomplete)
      (hclient : w.nc.noise_role = .client → w.nc.neg_data = .unset) (hbuf : w.nc.buf = none)
      (htells : w.Tells k [] (.len .neg_data w.nc.neg_data.held))
      (hstream : w.stream = w.nc.neg_data.held ++ w.env.rx.bytes)
  | in_header (got : List UInt8) (b0 b1 : UInt8) (hphase : w.nc.handshake_phase = .none_phase) (hk : k = 0)
      (hrole : w.nc.noise_role = .server) (hneg : w.nc.neg_data = .known 6) (hbuf : w.nc.buf = some ⟨got, 0, 6⟩)
      (hle : got.length ≤ 6) (htells : w.Tells k [(6, some 6)] (.header got))
      (hstream : w.stream = b0 :: b1 :: (got ++ w.env.rx.bytes))
  | message (left : List UInt8) (hphase : w.nc.handshake_phase = .process_phase) (hstands : w.Stands N left)
      (hturn : turn w.nc.noise_role k w.noise) (htold : w.Told k)

/-- An endpoint whose `msg_num` is that of the message `k`, which is due in noise-c. -/
structure Synced (N : NoiseC S) (turn : Role → Nat → S → Prop) (w : Endpoint S) (k : Nat) : Prop where
  steady : w.Steady
  unset : w.nc.noise_msg = .unset
  msg_num : w.nc.msg_num = number k
  client : w.nc.noise_role = .client → w.prologue = proxy_prologue
  due : w.Due N turn k

/-- A phase has said what belongs to the messages that it has got through. -/
structure Speaks (w v : Endpoint S) (k k' : Nat) : Prop where
  role : v.nc.noise_role = w.nc.noise_role
  tx : ∃ messages : List (List UInt8), k' = k + messages.length ∧
    (∀ message ∈ messages, message.length ≤ NOISE_PROTOCOL_MAX_HANDSHAKE_LEN) ∧
    v.env.tx = w.env.tx ++ (said w.nc.noise_role k messages).map Prod.snd

/-- All that an endpoint has said belongs to the messages that it has got through. -/
def HasSaid (role : Role) (w : Endpoint S) : Prop :=
  ∃ messages : List (List UInt8), messages.length = accepted w.trace ∧
    (∀ message ∈ messages, message.length ≤ NOISE_PROTOCOL_MAX_HANDSHAKE_LEN) ∧
    w.env.tx = (said role 0 messages).map Prod.snd

/-- An endpoint is in step behind a phase, with a result or without. -/
inductive Advances (N : NoiseC S) (turn : Role → Nat → S → Prop) (w : Endpoint S) (k : Nat) :
    ControlFlow (Endpoint S) (Int × Endpoint S) → Prop where
  | next {v : Endpoint S} (k' : Nat) (hv : v.Synced N turn k') (hspeaks : Speaks w v k k') :
      Advances N turn w k (.cont v)
  | suspended {v : Endpoint S} (k' : Nat) (hv : v.Synced N turn k') (hspeaks : Speaks w v k k') :
      Advances N turn w k (.done (NGX_AGAIN, v))
  | ended {n : Int} {v : Endpoint S} (hn : n ≠ NGX_AGAIN) (horder : InOrder v.trace) (hk : accepted v.trace = k)
      (hnum : n = NGX_OK → v.nc.msg_num = number k) (hspeaks : Speaks w v k k) : Advances N turn w k (.done (n, v))

section

variable {N : NoiseC S} {turn : Role → Nat → S → Prop} {w v u : Endpoint S} {k : Nat}

theorem Speaks.nothing (hrole : v.nc.noise_role = w.nc.noise_role) (htx : v.env.tx = w.env.tx) : Speaks w v k k :=
  ⟨hrole, [], rfl, by simp, htx.trans (List.append_nil _).symm⟩

/-- Receiving says nothing. -/
theorem Reads.speaks (h : Reads w v) (k : Nat) : Speaks w v k k := .nothing h.noise_role h.tx

theorem Speaks.of_same {k' : Nat} (h : Speaks v u k k') (hrole : v.nc.noise_role = w.nc.noise_role)
    (htx : v.env.tx = w.env.tx) : Speaks w u k k' := by
  obtain ⟨messages, hk, hsize, htx'⟩ := h.tx
  refine ⟨h.role.trans hrole, messages, hk, hsize, ?_⟩
  rw [htx', htx, hrole]

theorem Speaks.spoken {k' : Nat} (h : Speaks w v k k') (hk : accepted w.trace = k) (hk' : accepted v.trace = k')
    (hw : w.HasSaid w.nc.noise_role) : v.HasSaid w.nc.noise_role := by
  obtain ⟨messages, hlen, hsize, htx⟩ := hw
  obtain ⟨more, hmore, hsize', htx'⟩ := h.tx
  refine ⟨messages ++ more, ?_, ?_, ?_⟩
  · rw [List.length_append, hlen, hk, hk', hmore]
  · intro message hmem
    rcases List.mem_append.mp hmem with hmem | hmem
    · exact hsize message hmem
    · exact hsize' message hmem
  · rw [htx', htx, said_append, List.map_append, Nat.zero_add, hlen, hk]

/-- Reading first makes no difference to what a phase says. -/
theorem Advances.of_same {flow : ControlFlow (Endpoint S) (Int × Endpoint S)} (h : Advances N turn v k flow)
    (hrole : v.nc.noise_role = w.nc.noise_role) (htx : v.env.tx = w.env.tx) : Advances N turn w k flow := by
  cases h with
  | next k' hv hspeaks => exact .next k' hv (hspeaks.of_same hrole htx)
  | suspended k' hv hspeaks => exact .suspended k' hv (hspeaks.of_same hrole htx)
  | ended hn horder hk hnum hspeaks => exact .ended hn horder hk hnum (hspeaks.of_same hrole htx)

theorem Told.congr (h : w.Told k) (htrace : v.trace = w.trace) (hrole : v.nc.noise_role = w.nc.noise_role)
    (hneg : v.nc.neg_data = w.nc.neg_data) : v.Told k := by
  cases h with
  | header hk hserver htells => exact .header hk (hrole.trans hserver) (htells.of_trace htrace)
  | message hfirst htells =>
    refine .message (fun hk => hrole.trans (hfirst hk)) ?_
    rw [hneg]
    exact htells.of_trace htrace

/-- Behind its negotiation part a message has been checked once. -/
theorem Told.checked (h : w.Told k) (hk : k < 3) (hwriter : writer k ≠ w.nc.noise_role)
    (hnum : w.nc.msg_num = number k)
    (hchecked : w.nc.msg_num = NGX_NSOC_1MSG ∧ v.trace = w.trace ∨ w.Checked v 0) :
    v.Tells k [(neg_size k, some (neg_size k))] (.len .noise_msg []) := by
  rcases hchecked with ⟨hfirst, htrace⟩ | ⟨hlater, u, htook, htrace⟩
  · obtain rfl := (number_eq_first hk).mp (hnum.symm.trans hfirst)
    cases h with
    | header _ _ htells => exact htells.of_trace htrace
    | message hclient => exact absurd (hclient rfl).symm hwriter
  · have hne : k ≠ 0 := fun hzero => hlater (hnum.trans ((number_eq_first hk).mpr hzero))
    have hsize := neg_size_later hk hne
    cases h with
    | header hzero => exact absurd hzero hne
    | message _ htells =>
      rw [hsize]
      exact (htells.len htook).check hsize.symm htrace

/-- A negotiation length that was refused has been checked. -/
theorem Told.refused {size : Nat} (h : w.Told k) (hk : k < 3) (hnum : w.nc.msg_num = number k)
    (hchecked : w.Checked v size) : InOrder v.trace ∧ accepted v.trace = k := by
  obtain ⟨hlater, u, htook, htrace⟩ := hchecked
  have hne : k ≠ 0 := fun hzero => hlater (hnum.trans ((number_eq_first hk).mpr hzero))
  cases h with
  | header hzero => exact absurd hzero hne
  | message _ htells =>
    have hv := (htells.len htook).check (neg_size_later hk hne).symm htrace
    exact ⟨hv.order, hv.accepted⟩

/-- An event makes no difference. -/
theorem Synced.wake (h : w.Synced N turn k) (read write : Bool) : (w.wake read write).Synced N turn k := by
  refine ⟨h.steady.congr rfl rfl, h.unset, h.msg_num, h.client, ?_⟩
  cases h.due with
  | header hphase hk hneg hclient hbuf htells hstream =>
    exact .header hphase hk hneg hclient hbuf (htells.of_trace rfl) hstream
  | in_header got b0 b1 hphase hk hrole hneg hbuf hle htells hstream =>
    exact .in_header got b0 b1 hphase hk hrole hneg hbuf hle (htells.of_trace rfl) hstream
  | message left hphase hstands hturn htold =>
    exact .message left hphase (hstands.wake read write) hturn (htold.congr rfl rfl rfl)

/-- What an item brings. -/
def item_bytes (item : Net.Item) : List UInt8 := Net.Incoming.bytes ⟨[item], false⟩

theorem bytes_feed (w : Endpoint S) (item : Net.Item) :
    (w.feed item).env.rx.bytes = w.env.rx.bytes ++ item_bytes item := by
  simp [feed, leaving, item_bytes, Net.Incoming.bytes]

theorem stream_feed (w : Endpoint S) (item : Net.Item) : (w.feed item).stream = w.stream ++ item_bytes item := by
  unfold stream
  rw [bytes_feed, ← List.append_assoc]
  rfl

theorem Steady.feed (h : w.Steady) {item : Net.Item} (hitem : item ≠ .error) : (w.feed item).Steady := by
  refine ⟨⟨h.granted.events, h.granted.allocs, h.granted.eof⟩, h.sends, h.live.closed, ?_⟩
  intro herror
  rcases List.mem_append.mp herror with hmem | hmem
  · exact h.live.error hmem
  · exact hitem (List.mem_singleton.mp hmem).symm

theorem Stands.feed {left : List UInt8} (h : w.Stands N left) {item : Net.Item} (hitem : item ≠ .error)
    (hmessage : w.nc.handshake_phase = .process_phase) :
    (w.feed item).Stands N (left ++ item_bytes item) := by
  have hsteady := h.steady.feed hitem
  refine ⟨hsteady, h.unset, ?_⟩
  cases h.place with
  | header hphase | behind_len hphase => cases hphase.symm.trans hmessage
  | message hphase hat hlast hwrite =>
    refine .message hphase ⟨hsteady, hat.buf, hat.unset, hat.num, hat.first, hat.later, ?_⟩ hlast hwrite
    rw [bytes_feed, hat.left, List.append_assoc]
    rfl

/-- More of the stream, or a pause in it, makes no difference. -/
theorem Synced.feed (h : w.Synced N turn k) {item : Net.Item} (hitem : item ≠ .error) :
    (w.feed item).Synced N turn k := by
  refine ⟨h.steady.feed hitem, h.unset, h.msg_num, h.client, ?_⟩
  cases h.due with
  | header hphase hk hneg hclient hbuf htells hstream =>
    refine .header hphase hk hneg hclient hbuf (htells.of_trace rfl) ?_
    rw [stream_feed, bytes_feed, hstream, List.append_assoc]
    rfl
  | in_header got b0 b1 hphase hk hrole hneg hbuf hle htells hstream =>
    refine .in_header got b0 b1 hphase hk hrole hneg hbuf hle (htells.of_trace rfl) ?_
    rw [stream_feed, bytes_feed, hstream, ← List.append_assoc got]
    rfl
  | message left hphase hstands hturn htold =>
    exact .message _ hphase (hstands.feed hitem hphase) hturn (htold.congr rfl rfl rfl)

end

end Endpoint

end ngx_nsoc
