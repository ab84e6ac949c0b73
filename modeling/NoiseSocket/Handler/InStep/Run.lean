import NoiseSocket.Handler.InStep.Openings

open Exec Exec.Result

namespace ngx_nsoc

variable {S : Type}

namespace End

/-- An end that is in step or over, and has said what belongs to the messages that it has got through. -/
structure Abides (N : NoiseC S) (turn : Role → Nat → S → Prop) (role : Role) (p : End S) : Prop where
  plays : p.w.nc.noise_role = role
  spoken : p.w.HasSaid role
  going : p.result = none → p.w.Synced N turn (accepted p.w.trace)
  order : InOrder p.w.trace
  done : p.result = some NGX_OK → p.w.nc.msg_num = number (accepted p.w.trace)

section

variable {N : NoiseC S} {turn : Role → Nat → S → Prop} {role : Role} {p q : End S}
  {flow : ControlFlow (Endpoint S) (Int × Endpoint S)}

theorem Opening.abides (h : p.Opening role) (hclient : role = .client → p.w.prologue = proxy_prologue) :
    p.Abides N turn role := by
  have hsteady : p.w.Steady := by
    refine ⟨h.granted, h.sends, ?_⟩
    rw [h.rx]
    exact ⟨rfl, by simp⟩
  have hstands := h.fresh.stands hsteady N
  obtain ⟨ctx, buffer_size, role', buffer, hnc⟩ := h.fresh.nc
  have hneg : p.w.nc.neg_data = .unset := by
    rw [hnc]
    rfl
  have htrace := h.fresh.trace
  refine ⟨h.role, ⟨[], by rw [htrace]; rfl, by simp, h.tx⟩, fun _ => ?_, by rw [htrace]; trivial, ?_⟩
  · rw [htrace]
    refine ⟨hsteady, hstands.unset, ?_, fun hrole => hclient (h.role.symm.trans hrole), ?_⟩
    · rw [hnc]
      rfl
    · refine .header (by rw [hnc]; rfl) rfl (by rw [hneg]; rfl) (fun _ => hneg) (by rw [hnc]; rfl) ?_ ?_
      · rw [hneg]
        exact ⟨by rw [htrace]; trivial, congrArg accepted htrace, congrArg checks htrace,
          congrArg (fun trace => Position.first.behind (received trace)) htrace⟩
      · rw [hneg, Endpoint.stream, htrace]
        rfl
  · intro hok
    rw [h.result] at hok
    cases hok

/-- What the event behind a suspended call leaves alone. -/
theorem behind_same (p : End S) (read write : Bool) (flow : ControlFlow (Endpoint S) (Int × Endpoint S)) :
    (p.behind read write flow).w.env = (Endpoint.flowState flow).env ∧
      (p.behind read write flow).w.trace = (Endpoint.flowState flow).trace ∧
      (p.behind read write flow).w.nc = (Endpoint.flowState flow).nc ∧
      (p.behind read write flow).pending = p.pending := by
  rcases flow with w | ⟨n, w⟩
  · exact ⟨rfl, rfl, rfl, rfl⟩
  · unfold behind
    dsimp only
    split_ifs
    · exact ⟨rfl, rfl, rfl, rfl⟩
    · exact ⟨rfl, rfl, rfl, rfl⟩

/-- A phase keeps an end in step, and what it sends comes behind what was sent before. -/
theorem Abides.phase (h : p.Abides N turn role) (read write : Bool) (hresult : p.result = none)
    (hflow : Endpoint.Advances N turn p.w (accepted p.w.trace) flow) :
    (p.behind read write flow).Abides N turn role ∧ p.w.env.tx <+: (Endpoint.flowState flow).env.tx := by
  have hspeaks : ∀ {v : Endpoint S} {k : Nat}, Endpoint.Speaks p.w v (accepted p.w.trace) k → accepted v.trace = k →
      v.nc.noise_role = role ∧ v.HasSaid role ∧ p.w.env.tx <+: v.env.tx := by
    intro v k hspeak hk
    obtain ⟨more, -, -, htx⟩ := hspeak.tx
    have hspoken := hspeak.spoken rfl hk (h.plays ▸ h.spoken)
    exact ⟨hspeak.role.trans h.plays, h.plays ▸ hspoken, ⟨_, htx.symm⟩⟩
  cases hflow with
  | @next v k hv hspeak =>
    obtain ⟨horder, hk⟩ := hv.tells
    obtain ⟨hrole, hsaid, hprefix⟩ := hspeaks hspeak hk
    refine ⟨⟨hrole, hsaid, fun _ => ?_, horder, ?_⟩, hprefix⟩
    · show v.Synced N turn (accepted v.trace)
      rw [hk]
      exact hv
    · intro hok
      cases hresult.symm.trans hok
  | @suspended v k hv hspeak =>
    obtain ⟨horder, hk⟩ := hv.tells
    obtain ⟨hrole, hsaid, hprefix⟩ := hspeaks hspeak hk
    refine ⟨⟨hrole, hsaid, fun _ => ?_, horder, ?_⟩, hprefix⟩
    · show (v.wake read write).Synced N turn (accepted v.trace)
      rw [hk]
      exact hv.wake read write
    · intro hok
      cases hresult.symm.trans hok
  | @ended n v hn horder hk hnum hspeak =>
    obtain ⟨hrole, hsaid, hprefix⟩ := hspeaks hspeak hk
    have hbehind : p.behind read write (.done (n, v)) = { p with w := v, result := some n } := if_neg hn
    rw [hbehind]
    refine ⟨⟨hrole, hsaid, ?_, horder, ?_⟩, hprefix⟩
    · intro hnone
      cases hnone
    · intro hok
      show v.nc.msg_num = number (accepted v.trace)
      rw [hk]
      exact hnum (Option.some.inj hok)

/-- Something arrives at an end. -/
theorem Abides.feed (h : p.Abides N turn role) {item : Net.Item} (hitem : item ≠ .error) (pending : List UInt8) :
    Abides N turn role { p with w := p.w.feed item, pending } :=
  ⟨h.plays, h.spoken, fun hnone => (h.going hnone).feed hitem, h.order, h.done⟩

theorem Abides.inStep (h : p.Abides N turn role) : p.InStep := by
  refine ⟨h.order, ?_⟩
  rintro (hnone | hok)
  · exact (h.going hnone).msg_num
  · exact h.done hok

/-- What an end has read was said as it has read it. -/
theorem Abides.hears {role' : Role} (h : p.Abides N turn role) (hq : q.Abides N turn role')
    (hstream : p.w.stream ++ p.pending = q.w.env.tx) : p.Hears q := by
  obtain ⟨messages, hlen, hsize, htx⟩ := hq.spoken
  refine ⟨messages, hlen, by rw [hq.plays]; exact htx, ?_⟩
  have hread : received p.w.trace <+: (said role' 0 messages).map Prod.snd := by
    rw [← htx, ← hstream, Endpoint.stream, List.append_assoc]
    exact List.prefix_append _ _
  have hlayout := @layout_said role' 0 messages fun message hmem =>
    (hsize message hmem).trans_lt (by decide)
  rw [hq.plays, taken_of_inOrder h.order, ← hlayout.1]
  exact Position.layout_prefix _ hread

end

end End

namespace Wire

/-- Two ends that are in step or over, with all that is on the way between them. -/
structure Abides (N : NoiseC S) (turn : Role → Nat → S → Prop) (role role' : Role) (c : Wire S) : Prop where
  near : c.near.Abides N turn role
  far : c.far.Abides N turn role'
  near_stream : c.near.w.stream ++ c.near.pending = c.far.w.env.tx
  far_stream : c.far.w.stream ++ c.far.pending = c.near.w.env.tx

section

variable {N : NoiseC S} {turn : Role → Nat → S → Prop} {role role' : Role} {c c' start : Wire S}

theorem Abides.swap (h : c.Abides N turn role role') : c.swap.Abides N turn role' role :=
  ⟨h.far, h.near, h.far_stream, h.near_stream⟩

/-- A server reads what an honest client sends. -/
theorem Abides.headerFirst (h : c.Abides N turn role role') (hroles : role = .server → role' = .client)
    (hserver : c.near.w.nc.noise_role = .server) : c.near.w.HeaderFirst := by
  intro front hfront hsize
  obtain ⟨messages, -, -, htx⟩ := h.far.spoken
  rw [hroles (h.near.plays.symm.trans hserver)] at htx
  have hsaid : front <+: c.far.w.env.tx := h.near_stream ▸ hfront.trans (List.prefix_append _ _)
  rw [htx] at hsaid
  exact header_of_said hsaid hsize

/-- A step of one end keeps both in step. -/
theorem Abides.step (hN : N.InTurns turn) (h : c.Abides N turn role role')
    (hroles : role = .server → role' = .client) (hstep : NearStep N (Endpoint.Unbroken N) c c') :
    c'.Abides N turn role role' := by
  cases hstep with
  | @phase fuel flow read write hresult hcond hphase =>
    have hadvances := (h.near.going hresult).phase hN (h.headerFirst hroles) hcond hphase
    obtain ⟨hnear, more, htx⟩ := h.near.phase read write hresult hadvances
    obtain ⟨henv, htrace, -, hpending⟩ := c.near.behind_same read write flow
    refine ⟨hnear, ⟨h.far.plays, h.far.spoken, h.far.going, h.far.order, h.far.done⟩, ?_, ?_⟩
    · have hstream : (c.near.behind read write flow).w.stream = c.near.w.stream := by
        rw [← Endpoint.stream_phase hphase, Endpoint.stream, henv, htrace, Endpoint.stream]
      show (c.near.behind read write flow).w.stream ++ (c.near.behind read write flow).pending = _
      rw [hstream, hpending]
      exact h.near_stream
    · show c.far.w.stream ++ (c.far.pending ++ (Endpoint.flowState flow).env.tx.drop c.near.w.env.tx.length) =
        (c.near.behind read write flow).w.env.tx
      rw [henv, ← htx, List.drop_left, ← List.append_assoc, h.far_stream]
  | deliver n =>
    unfold End.deliver
    have hsplit := List.take_append_drop (n + 1) c.near.pending
    cases htake : c.near.pending.take (n + 1) with
    | nil => exact h
    | cons b bytes =>
      refine ⟨h.near.feed (by simp) _, h.far, ?_, h.far_stream⟩
      show (c.near.w.feed (.data b bytes)).stream ++ c.near.pending.drop (n + 1) = _
      have hbytes : Endpoint.item_bytes (.data b bytes) = b :: bytes := List.append_nil _
      rw [Endpoint.stream_feed, hbytes, List.append_assoc, ← htake, hsplit]
      exact h.near_stream
  | pause =>
    refine ⟨h.near.feed (by simp) _, h.far, ?_, h.far_stream⟩
    show (c.near.w.feed .again).stream ++ c.near.pending = _
    rw [Endpoint.stream_feed]
    exact (congrArg (· ++ _) (List.append_nil _)).trans h.near_stream

theorem Opening.abides (h : start.Opening) : start.Abides N turn .client .server := by
  have hstream : ∀ {p q : End S} {role role' : Role}, p.Opening role → q.Opening role' →
      p.w.stream ++ p.pending = q.w.env.tx := by
    intro p q role role' hp hq
    rw [Endpoint.stream, hp.fresh.trace, hp.rx, hp.pending, hq.tx]
    rfl
  exact ⟨h.near.abides fun _ => h.prologue, h.far.abides fun hrole => Role.noConfusion hrole,
    hstream h.near h.far, hstream h.far h.near⟩

theorem Run.abides (hN : N.InTurns turn) (hstart : start.Opening)
    (hrun : Run N (Endpoint.Unbroken N) start c) : c.Abides N turn .client .server := by
  induction hrun with
  | first => exact hstart.abides
  | near _ hstep ih => exact ih.step hN (fun hrole => Role.noConfusion hrole) hstep
  | far _ hstep ih => exact (ih.swap.step hN (fun _ => rfl) hstep).swap

theorem Abides.inStep (h : c.Abides N turn role role') : c.InStep :=
  ⟨h.near.inStep, h.far.inStep, h.near.hears h.far h.near_stream, h.far.hears h.near h.far_stream⟩

/-- A step stays in step unless a read has to wait in it inside the noise part of a message. -/
theorem Abides.inStep_iff (hN : N.InTurns turn) (h : c.Abides N turn role role')
    (hroles : role = .server → role' = .client) (hstep : NearStep N (fun _ => True) c c') :
    c'.InStep ↔ NearStep N (Endpoint.Unbroken N) c c' := by
  refine ⟨fun hin => ?_, fun hstep' => (h.step hN hroles hstep').inStep⟩
  cases hstep with
  | @phase fuel flow read write hresult _ hphase =>
    by_cases hcond : c.near.w.Unbroken N
    · exact .phase read write hresult hcond hphase
    · obtain ⟨v, rfl, hnum⟩ := (h.near.going hresult).drifts hN hcond hphase
      exact absurd (hin.near.msg_num (.inl hresult)) hnum
  | deliver n => exact .deliver n
  | pause => exact .pause

/-- Two honest ends stay in step, whatever is delivered when, as long as no read has to wait inside the noise
part of a message; and no longer. -/
theorem inStep_of_run (hN : N.InTurns turn) (hstart : start.Opening)
    (hrun : Run N (Endpoint.Unbroken N) start c) :
    c.InStep ∧
    (∀ c', NearStep N (fun _ => True) c c' → (c'.InStep ↔ NearStep N (Endpoint.Unbroken N) c c')) ∧
    ∀ c', NearStep N (fun _ => True) c.swap c' →
      (c'.InStep ↔ NearStep N (Endpoint.Unbroken N) c.swap c') := by
  have h := hrun.abides hN hstart
  exact ⟨h.inStep, fun c' hstep => h.inStep_iff hN (fun hrole => Role.noConfusion hrole) hstep,
    fun c' hstep => h.swap.inStep_iff hN (fun _ => rfl) hstep⟩

end

/-- What can happen at the near end, with a read event behind a suspended call. -/
inductive Move where
  | phase
  | deliver (n : Nat)
  | pause
deriving DecidableEq, Repr

/-- The steps of the near end as a function. -/
def move (N : NoiseC S) (cond : Endpoint S → Prop) [DecidablePred cond] (fuel : Nat) (c : Wire S) :
    Move → Option (Wire S)
  | .phase =>
    if c.near.result = none ∧ cond c.near.w then
      match c.near.w.phase N fuel with
      | ok flow => some {
          near := c.near.behind true false flow
          far := { c.far with
            pending := c.far.pending ++ (Endpoint.flowState flow).env.tx.drop c.near.w.env.tx.length } }
      | _ => none
    else none
  | .deliver n => some { c with near := c.near.deliver n }
  | .pause => some { c with near := { c.near with w := c.near.w.feed .again } }

/-- The moves of both ends, one after the other. -/
def moves (N : NoiseC S) (cond : Endpoint S → Prop) [DecidablePred cond] (fuel : Nat) :
    List (Role × Move) → Wire S → Option (Wire S)
  | [], c => some c
  | (.client, m) :: ms, c => (c.move N cond fuel m).bind (moves N cond fuel ms)
  | (.server, m) :: ms, c => (c.swap.move N cond fuel m).bind fun c => moves N cond fuel ms c.swap

section

variable {N : NoiseC S} {cond : Endpoint S → Prop} [DecidablePred cond] {fuel : Nat} {start c c' : Wire S}

theorem nearStep_of_move {m : Move} (h : c.move N cond fuel m = some c') : NearStep N cond c c' := by
  cases m with
  | phase =>
    unfold move at h
    dsimp only at h
    split_ifs at h with hgoing
    split at h
    · rename_i flow hphase
      cases h
      exact .phase true false hgoing.1 hgoing.2 hphase
    · cases h
  | deliver n =>
    cases h
    exact .deliver n
  | pause =>
    cases h
    exact .pause

theorem Run.moves {ms : List (Role × Move)} (hrun : Run N cond start c)
    (h : Wire.moves N cond fuel ms c = some c') : Run N cond start c' := by
  induction ms generalizing c with
  | nil =>
    cases h
    exact hrun
  | cons m ms ih =>
    obtain ⟨role, m⟩ := m
    cases role with
    | client =>
      obtain ⟨d, hstep, hrest⟩ := Option.bind_eq_some_iff.mp h
      exact ih (hrun.near (nearStep_of_move hstep)) hrest
    | server =>
      obtain ⟨d, hstep, hrest⟩ := Option.bind_eq_some_iff.mp h
      exact ih (hrun.far (nearStep_of_move hstep)) hrest

end

/-- A client and a server of the pattern XX. -/
def honest : Wire Pattern where
  near := ⟨.create ⟨some ⟨0, 1⟩, none⟩ NOISE_PROTOCOL_PAYLOAD_SIZE .client false ⟨.initiator, 0⟩ proxy_prologue
    ⟨fun _ => 0, []⟩ (.quiet [] false), none, []⟩
  far := ⟨.pattern_server [] false, none, []⟩

theorem opening_honest : honest.Opening := by
  refine ⟨⟨Endpoint.fresh_create _ _ _ _ _ _ _ _, rfl, ⟨rfl, rfl, rfl⟩, rfl, rfl, rfl, rfl, rfl⟩,
    ⟨Endpoint.fresh_create _ _ _ _ _ _ _ _, rfl, ⟨rfl, rfl, rfl⟩, rfl, rfl, rfl, rfl, rfl⟩, rfl⟩

theorem get_action_pattern (role : Role) (k : Nat) :
    Pattern.get_action ⟨ngx_noise_protocol.noise_role role, k⟩ =
      if k < 3 then if writer k = role then NOISE_ACTION_WRITE_MESSAGE else NOISE_ACTION_READ_MESSAGE
      else if k = 3 then NOISE_ACTION_SPLIT else NOISE_ACTION_FAILED := by
  obtain rfl | rfl | rfl | rfl | hk : k = 0 ∨ k = 1 ∨ k = 2 ∨ k = 3 ∨ 3 < k := by omega
  case inr.inr.inr.inr =>
    rw [if_neg (by omega), if_neg (by omega)]
    obtain ⟨k, rfl⟩ : ∃ n, k = n + 4 := ⟨k - 4, by omega⟩
    cases role <;> rfl
  all_goals cases role <;> rfl

theorem length_pattern_message (k : Nat) : (Pattern.message k).length ≤ NOISE_PROTOCOL_MAX_HANDSHAKE_LEN := by
  unfold Pattern.message
  split
  all_goals decide

theorem inTurns_pattern_xx :
    pattern_xx.InTurns fun role k p => p = ⟨ngx_noise_protocol.noise_role role, k⟩ := by
  refine ⟨?_, ?_, ?_, ?_, ?_⟩
  · intro w v hinit
    have hnoise : v.noise = ⟨ngx_noise_protocol.noise_role w.nc.noise_role, 0⟩ := by
      simp only [ngx_noise_protocol.init_handshake, pattern_xx, ngx_noise_protocol.init_local_keypair,
        ngx_noise_protocol.init_remote_public_key, ne_eq, not_true, if_false, if_true, Bool.false_eq_true] at hinit
      cases hkeys : w.nc.noise_ctx.private_keys with
      | none =>
        rw [hkeys] at hinit
        cases hinit
      | some keys =>
        rw [hkeys] at hinit
        cases hinit
        rfl
    exact hnoise
  · rintro role k _ rfl haction
    have hdue := (get_action_pattern role k).symm.trans haction
    split_ifs at hdue with hk hwriter hthree
    · exact ⟨hk, hwriter⟩
    all_goals cases hdue
  · rintro role k _ rfl haction
    have hdue := (get_action_pattern role k).symm.trans haction
    split_ifs at hdue with hk hwriter hthree
    · cases hdue
    · exact ⟨hk, hwriter⟩
    all_goals cases hdue
  · rintro role k _ message s' rfl hcall
    simp only [pattern_xx] at hcall
    split_ifs at hcall
    · obtain ⟨rfl, rfl⟩ : Pattern.message k = message ∧ _ = s' := by simpa using hcall
      exact ⟨rfl, length_pattern_message k⟩
    · cases hcall
  · rintro role k _ message s' rfl hcall
    simp only [pattern_xx] at hcall
    split_ifs at hcall
    · cases hcall
      rfl
    · cases hcall
    · cases hcall

/-- The negotiation length comes in byte by byte, and the client has nothing to read behind the first byte of
the answer. -/
def completed : List (Role × Move) :=
  [(.client, .phase), (.client, .phase),
    (.server, .deliver 0), (.server, .phase), (.server, .deliver 0), (.server, .phase),
    (.server, .deliver 5), (.server, .phase), (.server, .deliver 33), (.server, .phase), (.server, .phase),
    (.client, .deliver 0), (.client, .phase), (.client, .pause), (.client, .phase),
    (.client, .deliver 98), (.client, .phase), (.client, .phase), (.client, .phase),
    (.server, .deliver 67), (.server, .phase), (.server, .phase)]

theorem inStep_of_completed : ∃ c, Run pattern_xx (Endpoint.Unbroken pattern_xx) honest c ∧
    c.near.result = some NGX_OK ∧ c.far.result = some NGX_OK ∧ c.InStep := by
  obtain ⟨c, hmoves, hresults⟩ : ∃ c,
      moves pattern_xx (Endpoint.Unbroken pattern_xx) 8 completed honest = some c ∧
      (c.near.result, c.far.result) = (some NGX_OK, some NGX_OK) :=
    Option.map_eq_some_iff.mp (by decide +kernel)
  have hrun := Run.first.moves hmoves
  exact ⟨c, hrun, congrArg Prod.fst hresults, congrArg Prod.snd hresults,
    (inStep_of_run inTurns_pattern_xx opening_honest hrun).1⟩

/-- The server has nothing to read behind the first byte of the length of the noise message. -/
def paused : List (Role × Move) :=
  [(.client, .phase), (.client, .phase), (.server, .deliver 8), (.server, .phase), (.server, .phase),
    (.server, .deliver 32), (.server, .phase)]

/-- Behind that pause the server takes bytes of the noise message for negotiation data. -/
theorem not_inStep_of_paused : ∃ (turn : Role → Nat → Pattern → Prop) (start c : Wire Pattern),
    pattern_xx.InTurns turn ∧ start.Opening ∧ Run pattern_xx (fun _ => True) start c ∧
    c.far.result = some NGX_ERROR ∧ ¬ InOrder c.far.w.trace ∧ ¬ c.InStep := by
  obtain ⟨c, hmoves, hseen⟩ : ∃ c, moves pattern_xx (fun _ => True) 8 paused honest = some c ∧
      (c.far.result, decide (taken c.far.w.trace = Position.first.layout (received c.far.w.trace))) =
        (some NGX_ERROR, false) :=
    Option.map_eq_some_iff.mp (by decide +kernel)
  obtain ⟨hresult, hread⟩ := Prod.mk.inj hseen
  have horder : ¬ InOrder c.far.w.trace := fun h => of_decide_eq_false hread (taken_of_inOrder h)
  exact ⟨_, honest, c, inTurns_pattern_xx, opening_honest, Run.first.moves hmoves, hresult, horder,
    fun hin => horder hin.far.order⟩

end Wire

end ngx_nsoc
