import NoiseSocket.Handler.Session.Stages

open Exec Exec.Result

namespace ngx_nsoc

variable {S T R : Type}

open Endpoint

section

variable {N : NoiseC S} {together : Nat → S → S → Prop} {sending : S → T} {receiving : S → R}
  {Sync : T → R → Prop} {fuel : Nat} {c c' : Channel S} {p q : Party S} {w v : Endpoint S}

/-- An act at the near end only adds to what is on the way to the far end and to its history. -/
theorem Act.apply_near {act : Act} {near far : Party S} (far' : Party S) (h : act.apply N fuel ⟨near, far⟩ = ok c)
    (hhistory : far'.history = far.history) : ∃ near' out history,
      c = ⟨near', { far with pending := far.pending ++ out, history }⟩ ∧
      act.apply N fuel ⟨near, far'⟩ = ok ⟨near', { far' with pending := far'.pending ++ out, history }⟩ := by
  cases act with
  | write data payload =>
    simp only [Act.apply, bind_eq_ok_iff] at h ⊢
    obtain ⟨r, hcall, hrest⟩ := h
    cases hrest
    refine ⟨_, r.2.env.tx.drop near.w.env.tx.length, far.history, rfl, r, hcall, ?_⟩
    rw [← hhistory]
  | recv buf size =>
    simp only [Act.apply, bind_eq_ok_iff] at h ⊢
    obtain ⟨r, hcall, hrest⟩ := h
    split_ifs at hrest with hagain
    · cases hrest
      refine ⟨_, [], far.history, by rw [List.append_nil], r, hcall, ?_⟩
      rw [if_pos hagain, List.append_nil, ← hhistory]
    · cases hrest
      refine ⟨_, [], _, by rw [List.append_nil], r, hcall, ?_⟩
      rw [if_neg hagain, List.append_nil, hhistory]
  | deliver n =>
    simp only [Act.apply] at h ⊢
    split at h
    · cases h
      refine ⟨near, [], far.history, by rw [List.append_nil], ?_⟩
      rw [List.append_nil, ← hhistory]
    · cases h
      refine ⟨_, [], far.history, by rw [List.append_nil], ?_⟩
      rw [List.append_nil, ← hhistory]
  | pause =>
    cases h
    refine ⟨near.feed .again, [], far.history, by rw [List.append_nil], ?_⟩
    rw [List.append_nil, ← hhistory]
    rfl

/-- An act leaves it to the handshake whether an end is past it. -/
theorem Act.handshaked {act : Act} (h : act.apply N fuel c = ok c') :
    c'.near.w.nc.handshaked = c.near.w.nc.handshaked ∧ c'.far.w = c.far.w := by
  cases act with
  | write data payload =>
    simp only [Act.apply, bind_eq_ok_iff] at h
    obtain ⟨r, hcall, hrest⟩ := h
    cases hrest
    refine ⟨?_, rfl⟩
    show r.2.nc.handshaked = _
    rw [(write_outcome hcall).nc]
    rfl
  | recv buf size =>
    simp only [Act.apply, bind_eq_ok_iff] at h
    obtain ⟨r, hcall, hrest⟩ := h
    have hkeeps := (send_half_recv hcall).handshaked
    split_ifs at hrest
    · cases hrest
      exact ⟨hkeeps, rfl⟩
    · cases hrest
      exact ⟨hkeeps, rfl⟩
  | deliver n =>
    simp only [Act.apply] at h
    split at h
    · cases h
      exact ⟨rfl, rfl⟩
    · cases h
      exact ⟨rfl, rfl⟩
  | pause =>
    cases h
    exact ⟨rfl, rfl⟩

/-- The far end stands between two frames: it does not matter how much of what is left for it has
arrived. -/
theorem Channel.Sound.reseat (h : c.Sound N sending receiving Sync) (hunset : c.far.w.nc.noise_msg = .unset)
    (hnc : p.w.nc = c.far.w.nc) (hnoise : p.w.noise = c.far.w.noise) (hid : p.w.c.id = c.far.w.c.id)
    (hallocs : p.w.env.allocs = []) (hlive : p.w.env.rx.Live)
    (hbytes : p.w.env.rx.bytes ++ p.pending = c.far.w.env.rx.bytes ++ c.far.pending)
    (hhistory : p.history = c.far.history) (hfailed : p.failed = false) :
    ({ c with far := p } : Channel S).Sound N sending receiving Sync := by
  have hconnection : p.w.nc.connection = p.w.c.id := by
    rw [hnc, hid]
    exact h.far.connection
  refine ⟨h.near, ⟨hconnection, ?_, ?_, ?_, ?_⟩, ⟨⟨hconnection, ?_, hallocs, hlive⟩, ?_⟩, ⟨h.back.ready, ?_⟩,
    h.near_failed, hfailed⟩
  · rw [hnc]
    exact h.far.buffer_size
  · rw [hnc]
    exact h.far.to_send
  · rw [hnc]
    exact h.far.send_buf
  · simp [ngx_alloc, hallocs, nextAnswer]
  · rw [hnc]
    exact h.there.ready.last
  · obtain ⟨frames, payloads, start, left, hflight, hframing, hleft, hfifo⟩ := h.there.flight
    rw [← hnoise] at hflight
    cases hframing with
    | between hsize hleft' =>
      rw [hunset, show SizeField.unset.held = [] from rfl, List.nil_append] at hleft'
      refine ⟨frames, payloads, start, p.w.env.rx.bytes, hflight, .between ?_ ?_, ?_, hfifo⟩
      · rw [hnc, hunset]
        rfl
      · rw [hnc, hunset]
        rfl
      · rw [hbytes, ← hleft', hleft]
    | inside len got hinside hleft' => cases hunset.symm.trans hinside.size
  · obtain ⟨frames, payloads, start, left, hflight, hframing, hleft, hfifo⟩ := h.back.flight
    refine ⟨frames, payloads, start, left, ?_, hframing, hleft, ?_⟩
    · rw [hnoise]
      exact hflight
    · rw [hhistory]
      exact hfifo

/-- Two ends that have just split, the far one to be. -/
theorem sound_ahead {s t : S} (hidle : c.near.w.Idle 0) (hnear : c.near.w.Receiving)
    (hunset : c.near.w.nc.noise_msg = .unset) (hdrained : c.near.Drained) (hnear_history : c.near.history = [])
    (hnear_failed : c.near.failed = false) (hfar : c.far.Early) (hgranted : c.far.w.Granted)
    (hfar_history : c.far.history = []) (hnoise : c.near.w.noise = s)
    (hthere : Sync (sending s) (receiving t)) (hback : Sync (sending t) (receiving s)) :
    (c.ahead t []).Sound N sending receiving Sync := by
  have hfar_idle : (c.ahead t []).far.w.Idle 0 :=
    ⟨hfar.idle.connection, hfar.idle.buffer_size, hfar.idle.to_send, hfar.idle.send_buf, hfar.idle.alloc⟩
  have hfar_ready : (c.ahead t []).far.w.Receiving :=
    ⟨hfar.idle.connection, (by decide : (0 : Int) ≠ NGX_ERROR), hgranted.allocs, rfl, List.not_mem_nil⟩
  have hfresh : (c.ahead t []).Fresh sending receiving Sync := by
    refine ⟨?_, ?_, ?_, ?_⟩
    · intro p hp
      obtain rfl | hp := List.mem_cons.mp hp
      · exact ⟨hidle, hnear, hunset⟩
      · obtain rfl := List.mem_singleton.mp hp
        exact ⟨hfar_idle, hfar_ready, rfl⟩
    · intro p hp
      obtain rfl | hp := List.mem_cons.mp hp
      · exact ⟨hdrained, hnear_history, hnear_failed⟩
      · obtain rfl := List.mem_singleton.mp hp
        exact ⟨⟨rfl, rfl⟩, hfar_history, hfar.failed⟩
    · show Sync (sending c.near.w.noise) (receiving t)
      rw [hnoise]
      exact hthere
    · show Sync (sending t) (receiving c.near.w.noise)
      rw [hnoise]
      exact hback
  exact hfresh.sound

theorem Answered.near_step {t s' : S} {message : List UInt8} (h : Answered N together t s' message c)
    (hN : N.Interactive together sending receiving Sync) (hfuel : 3 ≤ fuel) {act : SessionAct}
    (hallowed : act.Allowed c) :
    ∃ c', Steps N fuel act c c' ∧ SessionStage N together sending receiving Sync c' := by
  obtain rfl | hnetwork := act.cases_of_early hallowed h.early.near.handshaked
  · obtain ⟨rx, hrecv, hexpects⟩ | ⟨left, hlead, hlive, hlater⟩ := h.near_expects.recv NGX_NSOC_LEN_FIELD_SIZE
    · obtain ⟨v, hcall, hv, hlike⟩ := h.near.again (show 2 ≤ fuel by omega) hrecv
      have hrx : v.env.rx = rx := by
        rw [hlike.env]
        rfl
      have hnoise : v.noise = c.near.w.noise := hlike.noise
      refine ⟨_, steps_waiting hcall hlike h.near.msg, .answered t s' message ⟨hv, ?_, h.far, h.far_num,
        ⟨h.early.near.looked hlike, h.early.far, h.early.near_history, h.early.far_history⟩, hexpects v hrx,
        h.far_bare, ?_, h.together⟩⟩
      · rw [hlike.nc]
        exact h.near_num
      · rw [hnoise]
        exact h.passes
    · -- The second message is there: the client sends the third one and is past the handshake.
      obtain ⟨third, s₃, t₃, hthird, htogether⟩ := hN.third _ _ h.together
      obtain ⟨s₄, t₄, hsplits, hsplits', hthere, hback⟩ := hN.split _ _ htogether
      have htakes : c.near.w.takes_all (handshake_frame [] third).length = true := by
        apply takes_all_of_le hallowed.2
        have hshort := hthird.short
        rw [length_handshake_frame, List.length_nil]
        omega
      obtain ⟨sends, v, hcall, hlike⟩ := h.near.client_call hfuel h.near_num h.passes hthird hsplits hlead htakes
      have htx : v.env.tx = c.near.w.env.tx ++ handshake_frame [] third := by rw [hlike.env]
      have hrx : v.env.rx = left := by rw [hlike.env]
      have hnoise : v.noise = s₄ := hlike.noise
      have hunset : v.nc.noise_msg = .unset := by
        rw [hlike.nc]
        rfl
      have hidle := h.early.near.idle
      have hv_idle : v.Idle 0 := idle_of_like hlike
        ⟨hidle.connection, hidle.buffer_size, hidle.to_send, hidle.send_buf, hidle.alloc⟩
      obtain ⟨hleft, hpending⟩ := List.append_eq_nil_iff.mp hlater
      have hv_ready : v.Receiving := by
        refine ⟨hv_idle.connection, ?_, ?_, ?_⟩
        · rw [hlike.nc]
          exact (by decide : (0 : Int) ≠ NGX_ERROR)
        · rw [hlike.env]
          exact h.near.granted.allocs
        · rw [hrx]
          exact hlive
      refine ⟨_, ⟨apply_handshake hcall (.inl rfl) htx, fun _ => hunset⟩, .confirmed s' s₃ t₃ t₄ third []
        ⟨h.far, h.far_num, ?_, ⟨h.early.far.idle, h.early.far.handshaked, h.early.far.failed⟩, ?_, hthird, hsplits', ?_⟩⟩
      · rw [hlike.nc]
        rfl
      · obtain ⟨a, hfar_rx⟩ := h.far_bare.rx
        refine .pending a hfar_rx ?_
        rw [h.far_bare.pending, List.nil_append, List.append_nil]
      · refine sound_ahead hv_idle hv_ready hunset ⟨hpending, ?_⟩ h.early.near_history h.early.near.failed
          ⟨h.early.far.idle, h.early.far.handshaked, h.early.far.failed⟩ h.far.granted h.early.far_history hnoise
          hthere hback
        show v.env.rx.bytes = []
        rw [hrx, hleft]
  · obtain ⟨q, harrives, hstep⟩ := network_step hallowed h.early.near hnetwork
    refine ⟨_, hstep, .answered t s' message ⟨awaiting_restock h.near harrives, ?_, h.far, h.far_num,
      h.early.restock_near harrives, harrives.expects _ _ _ ?_ h.passes.short h.near_expects, h.far_bare, ?_,
      h.together⟩⟩
    · rw [harrives.nc, h.near_num]
    · exact show ([] : List UInt8).length < 65536 by decide
    · rw [harrives.noise]
      exact h.passes

theorem Answered.far_step {t s' : S} {message : List UInt8} (h : Answered N together t s' message c)
    (hfuel : 3 ≤ fuel) {act : SessionAct} (hallowed : act.Allowed c.swap) :
    ∃ c', Steps N fuel act c.swap c' ∧ SessionStage N together sending receiving Sync c'.swap := by
  obtain rfl | hnetwork := act.cases_of_early hallowed h.early.far.handshaked
  · obtain ⟨rx, hrecv, hbare⟩ := h.far_bare.recv NGX_NSOC_LEN_FIELD_SIZE
    obtain ⟨v, hcall, hv, hlike⟩ := h.far.again (show 2 ≤ fuel by omega) hrecv
    have hrx : v.env.rx = rx := by
      rw [hlike.env]
      rfl
    have hnoise : v.noise = c.far.w.noise := hlike.noise
    refine ⟨_, steps_waiting (c := c.swap) hcall hlike h.far.msg, .answered t s' message ⟨h.near, h.near_num, hv, ?_,
      ⟨h.early.near, h.early.far.looked hlike, h.early.near_history, h.early.far_history⟩, h.near_expects,
      hbare v hrx, ?_, ?_⟩⟩
    · show v.nc.msg_num = NGX_NSOC_3MSG
      rw [hlike.nc]
      exact h.far_num
    · show N.Passes t c.near.w.noise message v.noise s'
      rw [hnoise]
      exact h.passes
    · show together 2 s' v.noise
      rw [hnoise]
      exact h.together
  · obtain ⟨q, harrives, hstep⟩ := network_step hallowed h.early.far hnetwork
    refine ⟨_, hstep, .answered t s' message ⟨h.near, h.near_num, awaiting_restock h.far harrives, ?_,
      h.early.restock_far harrives, h.near_expects, harrives.bare h.far_bare, ?_, ?_⟩⟩
    · exact (congrArg NoiseConnection.msg_num harrives.nc).trans h.far_num
    · show N.Passes t c.near.w.noise message q.w.noise s'
      rw [harrives.noise]
      exact h.passes
    · show together 2 s' q.w.noise
      rw [harrives.noise]
      exact h.together

theorem Confirmed.near_step {s s' t' t₁ : S} {message later : List UInt8}
    (h : Confirmed N sending receiving Sync s s' t' t₁ message later c) (hciphers : Ciphers N sending receiving Sync)
    (htagged : N.Tagged) (hfuel : 65538 ≤ fuel) {act : SessionAct} (hallowed : act.Allowed c) :
    ∃ c', Steps N fuel act c c' ∧ SessionStage N together sending receiving Sync c' := by
  cases act with
  | handshake => exact absurd (h.near_handshaked.symm.trans hallowed.1) (by simp)
  | data act =>
    have hallowed' : act.Allowed (c.ahead t₁ later) := by
      cases act with
      | write data payload => exact hallowed.2
      | recv buf size => exact hallowed.2
      | deliver n => trivial
      | pause => trivial
    -- The act cannot tell this connection from the one in which the server has read the third message.
    obtain ⟨c₁, hstep, hsound⟩ := act.sound hciphers htagged hfuel h.sound hallowed'
    obtain ⟨near, out, history, rfl, hstep'⟩ := Act.apply_near c.far hstep rfl
    have hkeeps := (Act.handshaked hstep').1
    refine ⟨_, ⟨hstep', by rintro ⟨⟩⟩, .confirmed s s' t' t₁ message (later ++ out) ⟨h.far, h.far_num, ?_,
      ⟨h.far_early.idle, h.far_early.handshaked, h.far_early.failed⟩, ?_, h.passes, h.splits, hsound⟩⟩
    · exact hkeeps.trans h.near_handshaked
    · cases h.far_expects with
      | pending a hrx hpending =>
        refine .pending a hrx ?_
        rw [hpending, List.append_assoc]
      | arrived a more rest hrx herror hlater =>
        refine .arrived a more rest hrx herror ?_
        rw [← List.append_assoc, hlater]

theorem Confirmed.far_step {s s' t' t₁ : S} {message later : List UInt8}
    (h : Confirmed N sending receiving Sync s s' t' t₁ message later c) (hfuel : 65538 ≤ fuel) {act : SessionAct}
    (hallowed : act.Allowed c.swap) :
    ∃ c', Steps N fuel act c.swap c' ∧ SessionStage N together sending receiving Sync c'.swap := by
  obtain rfl | hnetwork := act.cases_of_early hallowed h.far_early.handshaked
  · obtain ⟨rx, hrecv, hexpects⟩ | ⟨left, hlead, hlive, hlater⟩ := h.far_expects.recv NGX_NSOC_LEN_FIELD_SIZE
    · obtain ⟨v, hcall, hv, hlike⟩ := h.far.again (show 2 ≤ fuel by omega) hrecv
      have hrx : v.env.rx = rx := by
        rw [hlike.env]
        rfl
      have hnoise : v.noise = c.far.w.noise := hlike.noise
      have hfinished : ((v.finished t₁).leaving ⟨[], false⟩).Like ((c.far.w.finished t₁).leaving ⟨[], false⟩) :=
        hlike.map (fun k => { k with
          noise := t₁
          nc := { k.nc with
            handshake_phase := .end_phase, last := 0, buf := none, msg_num := NGX_NSOC_1MSG,
            noise_msg := .unset, neg_data := .unset, handshaked := true }
          env := { k.env with rx := ⟨[], false⟩ }
          transport := .noise }) rfl rfl
      refine ⟨_, steps_waiting (c := c.swap) hcall hlike h.far.msg, .confirmed s s' t' t₁ message later ⟨hv, ?_,
        h.near_handshaked, h.far_early.looked hlike, hexpects v hrx, ?_, h.splits, ?_⟩⟩
      · show v.nc.msg_num = NGX_NSOC_3MSG
        rw [hlike.nc]
        exact h.far_num
      · show N.Passes s v.noise message s' t'
        rw [hnoise]
        exact h.passes
      · refine h.sound.reseat (p := { c.far with w := (v.finished t₁).leaving ⟨[], false⟩, pending := later }) rfl
          hfinished.nc hfinished.noise hfinished.id ?_ ⟨rfl, List.not_mem_nil⟩ rfl rfl h.far_early.failed
        rw [hfinished.env]
        exact h.far.granted.allocs
    · -- The third message is there, and behind it perhaps the first frames.
      obtain ⟨v, hcall, hlike⟩ := h.far.server_call (show 2 ≤ fuel by omega) h.far_num h.passes h.splits hlead
      have htx : v.env.tx = c.far.w.env.tx ++ [] := by
        rw [hlike.env, List.append_nil]
        rfl
      have hrx : v.env.rx = left := by
        rw [hlike.env]
        rfl
      have hunset : v.nc.noise_msg = .unset := by
        rw [hlike.nc]
        rfl
      refine ⟨_, ⟨apply_handshake (c := c.swap) hcall (.inl rfl) htx, fun _ => hunset⟩,
        .established ⟨h.near_handshaked, ?_, ?_⟩⟩
      · show v.nc.handshaked = true
        rw [hlike.nc]
        rfl
      · have hnear : ({ c.near with pending := c.near.pending ++ [] } : Party S) = c.near := by
          rw [List.append_nil]
        show Channel.Sound N sending receiving Sync
          ⟨{ c.near with pending := c.near.pending ++ [] }, { c.far with w := v }⟩
        rw [hnear]
        refine h.sound.reseat (p := { c.far with w := v }) rfl hlike.nc hlike.noise hlike.id ?_ ?_ ?_ rfl
          h.far_early.failed
        · rw [hlike.env]
          exact h.far.granted.allocs
        · rw [hrx]
          exact hlive
        · show v.env.rx.bytes ++ c.far.pending = [] ++ later
          rw [hrx, hlater, List.nil_append]
  · obtain ⟨q, harrives, hstep⟩ := network_step hallowed h.far_early hnetwork
    have hahead : (c.swap.swap.ahead t₁ later).Sound N sending receiving Sync := h.sound
    refine ⟨_, hstep, .confirmed s s' t' t₁ message later ⟨awaiting_restock h.far harrives, ?_, h.near_handshaked,
      h.far_early.restock harrives, harrives.expects _ _ _ ?_ h.passes.short h.far_expects, ?_, h.splits, ?_⟩⟩
    · exact (congrArg NoiseConnection.msg_num harrives.nc).trans h.far_num
    · exact show ([] : List UInt8).length < 65536 by decide
    · show N.Passes s q.w.noise message s' t'
      rw [harrives.noise]
      exact h.passes
    · obtain ⟨rx, pending, rfl⟩ := harrives.restock
      exact h.sound

theorem Established.near_step (h : Established N sending receiving Sync c)
    (hciphers : Ciphers N sending receiving Sync) (htagged : N.Tagged) (hfuel : 65538 ≤ fuel) {act : SessionAct}
    (hallowed : act.Allowed c) :
    ∃ c', Steps N fuel act c c' ∧ Established N sending receiving Sync c' := by
  cases act with
  | handshake => exact absurd (h.near_handshaked.symm.trans hallowed.1) (by simp)
  | data act =>
    have hallowed' : act.Allowed c := by
      cases act with
      | write data payload => exact hallowed.2
      | recv buf size => exact hallowed.2
      | deliver n => trivial
      | pause => trivial
    obtain ⟨c', hstep, hsound⟩ := act.sound hciphers htagged hfuel h.sound hallowed'
    obtain ⟨hnear, hfar⟩ := Act.handshaked hstep
    refine ⟨c', ⟨hstep, by rintro ⟨⟩⟩, hnear.trans h.near_handshaked, ?_, hsound⟩
    rw [hfar]
    exact h.far_handshaked

theorem Established.swap (h : Established N sending receiving Sync c) :
    Established N sending receiving Sync c.swap :=
  ⟨h.far_handshaked, h.near_handshaked, h.sound.swap⟩

theorem SessionStage.near_step (h : SessionStage N together sending receiving Sync c)
    (hN : N.Interactive together sending receiving Sync) (hciphers : Ciphers N sending receiving Sync)
    (htagged : N.Tagged) (hfuel : 65538 ≤ fuel) {act : SessionAct} (hallowed : act.Allowed c) :
    ∃ c', Steps N fuel act c c' ∧ SessionStage N together sending receiving Sync c' := by
  have hfew : 3 ≤ fuel := by omega
  cases h with
  | opened s t h => exact h.near_step hN hfew hallowed
  | greeted s t t' message h => exact h.near_step hfew hallowed
  | answered t s' message h => exact h.near_step hN hfew hallowed
  | confirmed s s' t' t₁ message later h => exact h.near_step hciphers htagged hfuel hallowed
  | established h =>
    obtain ⟨c', hstep, hafter⟩ := h.near_step hciphers htagged hfuel hallowed
    exact ⟨c', hstep, .established hafter⟩

theorem SessionStage.far_step (h : SessionStage N together sending receiving Sync c)
    (hN : N.Interactive together sending receiving Sync) (hciphers : Ciphers N sending receiving Sync)
    (htagged : N.Tagged) (hfuel : 65538 ≤ fuel) {act : SessionAct} (hallowed : act.Allowed c.swap) :
    ∃ c', Steps N fuel act c.swap c' ∧ SessionStage N together sending receiving Sync c'.swap := by
  have hfew : 3 ≤ fuel := by omega
  cases h with
  | opened s t h => exact h.far_step hfew hallowed
  | greeted s t t' message h => exact h.far_step hN hfew hallowed
  | answered t s' message h => exact h.far_step hfew hallowed
  | confirmed s s' t' t₁ message later h => exact h.far_step hfuel hallowed
  | established h =>
    obtain ⟨c', hstep, hafter⟩ := h.swap.near_step hciphers htagged hfuel hallowed
    exact ⟨c', hstep, .established hafter.swap⟩

theorem Party.Untouched.bare (h : p.Untouched) : p.Bare := ⟨⟨0, h.rx⟩, h.pending⟩

theorem Channel.Opening.opened (h : c.Opening N together) : ∃ s t, Opened N together s t c := by
  obtain ⟨s, t, hs, ht, htogether⟩ := h.keys
  exact ⟨s, t, h.near, h.far, ⟨⟨h.near_untouched.idle, h.near_untouched.handshaked, h.near_untouched.failed⟩,
    ⟨h.far_untouched.idle, h.far_untouched.handshaked, h.far_untouched.failed⟩, h.near_untouched.history,
    h.far_untouched.history⟩, h.near_untouched.bare, h.far_untouched.bare, h.prologue, hs, ht, htogether⟩

theorem Channel.Session.stage (hrun : c.Session N fuel c') (hN : N.Interactive together sending receiving Sync)
    (hciphers : Ciphers N sending receiving Sync) (htagged : N.Tagged) (hfuel : 65538 ≤ fuel)
    (hstart : c.Opening N together) : SessionStage N together sending receiving Sync c' := by
  induction hrun with
  | refl =>
    obtain ⟨s, t, hopened⟩ := hstart.opened
    exact .opened s t hopened
  | near _ act hallowed hstep ih =>
    obtain ⟨c₁, hcall, hstage⟩ := ih.near_step hN hciphers htagged hfuel hallowed
    cases hstep.symm.trans hcall.apply
    exact hstage
  | far _ act hallowed hstep ih =>
    obtain ⟨c₁, hcall, hstage⟩ := ih.far_step hN hciphers htagged hfuel hallowed
    cases hstep.symm.trans hcall.apply
    exact hstage

/-- An end that expects a message has something to wait for. -/
theorem Party.Expects.not_drained {frame later : List UInt8} (h : p.Expects frame later) (hne : frame ≠ []) :
    ¬ p.Drained := by
  intro hdrained
  cases h with
  | pending a hrx hpending =>
    rw [hdrained.1] at hpending
    exact hne (List.append_eq_nil_iff.mp hpending.symm).1
  | arrived a more rest hrx herror hlater =>
    have hbytes : Net.Incoming.bytes ⟨List.replicate a .again ++ Net.unread (frame ++ more) rest, false⟩ =
        Net.Incoming.bytes ⟨List.replicate a .again, false⟩ ++
          Net.Incoming.bytes ⟨Net.unread (frame ++ more) rest, false⟩ := List.flatMap_append
    have hnone := hdrained.2
    rw [hrx, hbytes, Net.Incoming.bytes_unread] at hnone
    simp [hne] at hnone

/-- An end past its handshake that has begun no frame. -/
theorem SessionStage.at_frames (h : SessionStage N together sending receiving Sync c) :
    (c.near.w.nc.handshaked = true → c.near.w.nc.noise_msg = .unset → c.near.AtFrames c.far.history) ∧
      (c.far.w.nc.handshaked = true → c.far.w.nc.noise_msg = .unset → c.far.AtFrames c.near.history) := by
  have hearly : c.Early → (c.near.w.nc.handshaked = true → c.near.w.nc.noise_msg = .unset →
      c.near.AtFrames c.far.history) ∧ (c.far.w.nc.handshaked = true → c.far.w.nc.noise_msg = .unset →
      c.far.AtFrames c.near.history) := by
    intro h
    exact ⟨fun hdone => absurd hdone (by simp [h.near.handshaked]),
      fun hdone => absurd hdone (by simp [h.far.handshaked])⟩
  cases h with
  | opened s t h => exact hearly h.early
  | greeted s t t' message h => exact hearly h.early
  | answered t s' message h => exact hearly h.early
  | confirmed s s' t' t₁ message later h =>
    exact ⟨fun _ hunset => h.sound.back.at_frames hunset,
      fun hdone => absurd hdone (by simp [h.far_early.handshaked])⟩
  | established h =>
    exact ⟨fun _ hunset => h.sound.back.at_frames hunset, fun _ hunset => h.sound.there.at_frames hunset⟩

/-- A session, from the first message of the handshake to the last payload. However the calls of the two
ends and the arrivals of bytes interleave, no call fails and every further call returns; the handshake
takes exactly its own bytes from the stream; the two ends do not come to wait for each other before both
are past the handshake; and the history of each direction is one of a queue, which is empty once nothing
is on the way. -/
theorem session_refines_queues (hN : N.Interactive together sending receiving Sync)
    (hciphers : Ciphers N sending receiving Sync) (htagged : N.Tagged) (hfuel : 65538 ≤ fuel)
    (hstart : c.Opening N together) (hrun : c.Session N fuel c') :
    (∃ queue, Fifo.Runs [] c'.near.history queue ∧ (c'.far.Drained → queue = [])) ∧
      (∃ queue, Fifo.Runs [] c'.far.history queue ∧ (c'.near.Drained → queue = [])) ∧
      c'.near.failed = false ∧ c'.far.failed = false ∧
      (c'.near.Drained → c'.far.Drained → c'.near.w.nc.handshake_phase ≠ .none_phase →
        c'.near.w.nc.handshaked = true ∧ c'.far.w.nc.handshaked = true) ∧
      ∀ act : SessionAct,
        (act.Allowed c' → ∃ next, act.apply N fuel c' = ok next ∧ act.StopsAtFrames next) ∧
        (act.Allowed c'.swap → ∃ next, act.apply N fuel c'.swap = ok next ∧ act.StopsAtFrames next) := by
  have hstage := hrun.stage hN hciphers htagged hfuel hstart
  have hgoes : ∀ act : SessionAct,
      (act.Allowed c' → ∃ next, act.apply N fuel c' = ok next ∧ act.StopsAtFrames next) ∧
      (act.Allowed c'.swap → ∃ next, act.apply N fuel c'.swap = ok next ∧ act.StopsAtFrames next) := by
    intro act
    refine ⟨?_, ?_⟩
    · intro hallowed
      obtain ⟨next, hstep, hnext⟩ := hstage.near_step hN hciphers htagged hfuel hallowed
      exact ⟨next, hstep.apply, fun hact hdone => hnext.at_frames.1 hdone (hstep.between hact)⟩
    · intro hallowed
      obtain ⟨next, hstep, hnext⟩ := hstage.far_step hN hciphers htagged hfuel hallowed
      exact ⟨next, hstep.apply, fun hact hdone => hnext.at_frames.2 hdone (hstep.between hact)⟩
  have hearly : c'.Early → (∃ queue, Fifo.Runs [] c'.near.history queue ∧ (c'.far.Drained → queue = [])) ∧
      (∃ queue, Fifo.Runs [] c'.far.history queue ∧ (c'.near.Drained → queue = [])) ∧
      c'.near.failed = false ∧ c'.far.failed = false := by
    intro h
    refine ⟨⟨[], ?_, fun _ => rfl⟩, ⟨[], ?_, fun _ => rfl⟩, h.near.failed, h.far.failed⟩
    · rw [h.near_history]
      exact .nil []
    · rw [h.far_history]
      exact .nil []
  have hqueue : ∀ {sender receiver : Party S}, Way N sending receiving Sync sender receiver →
      ∃ queue, Fifo.Runs [] sender.history queue ∧ (receiver.Drained → queue = []) := by
    intro sender receiver hway
    obtain ⟨frames, payloads, start, left, -, -, -, hfifo⟩ := hway.flight
    exact ⟨payloads, hfifo, fun hdrained => hfifo.unique (hway.empty_of_drained hdrained)⟩
  cases hstage with
  | opened s t h =>
    obtain ⟨hnear, hfar, hfine⟩ := hearly h.early
    exact ⟨hnear, hfar, hfine.1, hfine.2, fun _ _ hphase => absurd h.near.phase hphase, hgoes⟩
  | greeted s t t' message h =>
    obtain ⟨hnear, hfar, hfine⟩ := hearly h.early
    have hexpects := h.far_expects.not_drained (handshake_frame_ne_nil _ _)
    exact ⟨hnear, hfar, hfine.1, hfine.2, fun _ hdrained _ => absurd hdrained hexpects, hgoes⟩
  | answered t s' message h =>
    obtain ⟨hnear, hfar, hfine⟩ := hearly h.early
    have hexpects := h.near_expects.not_drained (handshake_frame_ne_nil _ _)
    exact ⟨hnear, hfar, hfine.1, hfine.2, fun hdrained _ _ => absurd hdrained hexpects, hgoes⟩
  | confirmed s s' t' t₁ message later h =>
    have hexpects := h.far_expects.not_drained (handshake_frame_ne_nil _ _)
    obtain ⟨queue, hnear, -⟩ := hqueue h.sound.there
    have hback := hqueue h.sound.back
    exact ⟨⟨queue, hnear, fun hdrained => absurd hdrained hexpects⟩, hback, h.sound.near_failed,
      h.far_early.failed, fun _ hdrained _ => absurd hdrained hexpects, hgoes⟩
  | established h =>
    exact ⟨hqueue h.sound.there, hqueue h.sound.back, h.sound.near_failed, h.sound.far_failed,
      fun _ _ _ => ⟨h.near_handshaked, h.far_handshaked⟩, hgoes⟩

end

/-- The two sides of the pattern XX behind `k` messages. -/
def Pattern.Together (k : Nat) (s t : Pattern) : Prop := s = ⟨.initiator, k⟩ ∧ t = ⟨.responder, k⟩

theorem interactive_pattern_xx :
    pattern_xx.Interactive Pattern.Together (fun _ => ()) (fun _ => ()) fun _ _ : Unit => True := by
  refine ⟨?_, ?_, ?_, ?_⟩
  · rintro s t ⟨rfl, rfl⟩
    exact ⟨Pattern.message 0, ⟨.initiator, 1⟩, ⟨.responder, 1⟩, ⟨rfl, rfl, rfl, rfl, by decide, by decide⟩,
      rfl, rfl⟩
  · rintro s t ⟨rfl, rfl⟩
    exact ⟨Pattern.message 1, ⟨.initiator, 2⟩, ⟨.responder, 2⟩, ⟨rfl, rfl, rfl, rfl, by decide, by decide⟩,
      rfl, rfl⟩
  · rintro s t ⟨rfl, rfl⟩
    exact ⟨Pattern.message 2, ⟨.initiator, 3⟩, ⟨.responder, 3⟩, ⟨rfl, rfl, rfl, rfl, by decide, by decide⟩,
      rfl, rfl⟩
  · rintro s t ⟨rfl, rfl⟩
    exact ⟨_, _, ⟨rfl, _, rfl, rfl⟩, ⟨rfl, _, rfl, rfl⟩, trivial, trivial⟩

/-- A client and a server of the pattern XX. -/
def opening_channel : Channel Pattern where
  near := ⟨.create ⟨some ⟨0, 1⟩, none⟩ NOISE_PROTOCOL_PAYLOAD_SIZE .client false ⟨.initiator, 0⟩ proxy_prologue
    ⟨fun _ => 0, []⟩ (.quiet [] false), [], [], false⟩
  far := ⟨pattern_server [] false, [], [], false⟩

theorem opening_opening_channel : opening_channel.Opening pattern_xx Pattern.Together := by
  refine ⟨⟨⟨rfl, rfl, rfl⟩, rfl, rfl, rfl, rfl, rfl, rfl⟩, ⟨⟨rfl, rfl, rfl⟩, rfl, rfl, rfl, rfl, rfl, rfl⟩,
    ⟨⟨rfl, by decide, rfl, rfl, rfl⟩, rfl, rfl, rfl, rfl, rfl⟩,
    ⟨⟨rfl, by decide, rfl, rfl, rfl⟩, rfl, rfl, rfl, rfl, rfl⟩, rfl, ?_⟩
  exact ⟨_, _, ⟨NGX_OK, _, by decide, rfl, rfl⟩, ⟨NGX_OK, _, by decide, rfl, rfl⟩, rfl, rfl⟩

/-- The client writes its first payload before the server has read the third message, and both arrive in one
segment. -/
theorem session_refines_queues_of_one_segment :
    ∃ c, opening_channel.Session pattern_xx 65538 c ∧ c.near.w.nc.handshaked = true ∧
      c.far.w.nc.handshaked = true ∧ c.near.history = [.put [1, 2, 3], .take [1, 2, 3]] ∧ c.far.Drained ∧
      ∃ queue, Fifo.Runs [] c.near.history queue ∧ queue = [] := by
  have hrun : ∃ c, opening_channel.Session pattern_xx 65538 c ∧ c.near.w.nc.handshaked = true ∧
      c.far.w.nc.handshaked = true ∧ c.near.history = [.put [1, 2, 3], .take [1, 2, 3]] ∧ c.far.Drained := by
    refine ⟨_, ((((((((Channel.Session.refl.near .handshake ⟨rfl, rfl⟩ rfl).far (.data (.deliver 99))
      (fun _ => by decide) rfl).far .handshake ⟨rfl, rfl⟩ rfl).near (.data (.deliver 199)) (fun _ => by decide)
      rfl).near .handshake ⟨rfl, rfl⟩ rfl).near (.data (.write 7 [1, 2, 3])) ⟨rfl, by decide, by decide, rfl,
      by intro b hb; cases hb⟩ rfl).far (.data (.deliver 299)) (fun _ => by decide) rfl).far .handshake ⟨rfl, rfl⟩
      rfl).far (.data (.recv 100 16)) ⟨rfl, by decide, by decide⟩ rfl, rfl, rfl, rfl, rfl, rfl⟩
  obtain ⟨c, hruns, hnear, hfar, hhistory, hdrained⟩ := hrun
  obtain ⟨⟨queue, hqueue, hempty⟩, -⟩ := session_refines_queues interactive_pattern_xx ciphers_pattern_xx
    tagged_pattern_xx (Nat.le_refl 65538) opening_opening_channel hruns
  exact ⟨c, hruns, hnear, hfar, hhistory, hdrained, queue, hqueue, hempty hdrained⟩

end ngx_nsoc
