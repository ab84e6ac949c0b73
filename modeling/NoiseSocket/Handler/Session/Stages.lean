import NoiseSocket.Handler.Session.Arrivals

open Exec Exec.Result

namespace ngx_nsoc

variable {S T R : Type}

open Endpoint

/-- An end whose handshake is not over and on which nothing has failed. -/
structure Party.Early (p : Party S) : Prop where
  idle : p.w.Idle 0
  handshaked : p.w.nc.handshaked = false
  failed : p.failed = false

/-- The connection as it will be once the far end has read the last message of the handshake, with noise-c
in the state `t`. -/
def Channel.ahead (c : Channel S) (t : S) (later : List UInt8) : Channel S :=
  { c with far := { c.far with w := (c.far.w.finished t).leaving ⟨[], false⟩, pending := later } }

/-- Neither end has written anything yet but messages of the handshake. -/
structure Channel.Early (c : Channel S) : Prop where
  near : c.near.Early
  far : c.far.Early
  near_history : c.near.history = []
  far_history : c.far.history = []

/-- Nothing has been sent. The near end is the client. -/
structure Opened (N : NoiseC S) (together : Nat → S → S → Prop) (s t : S) (c : Channel S) : Prop where
  near : Unstarted .client c.near.w
  far : Unstarted .server c.far.w
  early : c.Early
  near_bare : c.near.Bare
  far_bare : c.far.Bare
  prologue : c.near.w.prologue = proxy_prologue
  near_opens : Opens N c.near.w s
  far_opens : Opens N c.far.w.headed t
  together : together 0 s t

/-- The client has sent the first message. -/
structure Greeted (N : NoiseC S) (together : Nat → S → S → Prop) (s t t' : S) (message : List UInt8)
    (c : Channel S) : Prop where
  near : Awaiting N c.near.w
  near_num : c.near.w.nc.msg_num = NGX_NSOC_2MSG_OK
  far : Unstarted .server c.far.w
  early : c.Early
  near_bare : c.near.Bare
  far_expects : c.far.Expects (handshake_frame proxy_prologue.header.bytes message) []
  far_opens : Opens N c.far.w.headed t
  passes : N.Passes s t message c.near.w.noise t'
  together : together 1 c.near.w.noise t'

/-- The server has sent the second message. -/
structure Answered (N : NoiseC S) (together : Nat → S → S → Prop) (t s' : S) (message : List UInt8)
    (c : Channel S) : Prop where
  near : Awaiting N c.near.w
  near_num : c.near.w.nc.msg_num = NGX_NSOC_2MSG_OK
  far : Awaiting N c.far.w
  far_num : c.far.w.nc.msg_num = NGX_NSOC_3MSG
  early : c.Early
  near_expects : c.near.Expects (handshake_frame [] message) []
  far_bare : c.far.Bare
  passes : N.Passes t c.near.w.noise message c.far.w.noise s'
  together : together 2 s' c.far.w.noise

/-- The client has sent the third message and is past the handshake. It may have written frames behind it. -/
structure Confirmed (N : NoiseC S) (sending : S → T) (receiving : S → R) (Sync : T → R → Prop)
    (s s' t' t₁ : S) (message later : List UInt8) (c : Channel S) : Prop where
  far : Awaiting N c.far.w
  far_num : c.far.w.nc.msg_num = NGX_NSOC_3MSG
  near_handshaked : c.near.w.nc.handshaked = true
  far_early : c.far.Early
  far_expects : c.far.Expects (handshake_frame [] message) later
  passes : N.Passes s c.far.w.noise message s' t'
  splits : N.Splits t' t₁
  sound : (c.ahead t₁ later).Sound N sending receiving Sync

/-- Both ends are past the handshake. -/
structure Established (N : NoiseC S) (sending : S → T) (receiving : S → R) (Sync : T → R → Prop)
    (c : Channel S) : Prop where
  near_handshaked : c.near.w.nc.handshaked = true
  far_handshaked : c.far.w.nc.handshaked = true
  sound : c.Sound N sending receiving Sync

/-- How far a connection has come. -/
inductive SessionStage (N : NoiseC S) (together : Nat → S → S → Prop) (sending : S → T) (receiving : S → R)
    (Sync : T → R → Prop) (c : Channel S) : Prop where
  | opened (s t : S) (h : Opened N together s t c)
  | greeted (s t t' : S) (message : List UInt8) (h : Greeted N together s t t' message c)
  | answered (t s' : S) (message : List UInt8) (h : Answered N together t s' message c)
  | confirmed (s s' t' t₁ : S) (message later : List UInt8)
      (h : Confirmed N sending receiving Sync s s' t' t₁ message later c)
  | established (h : Established N sending receiving Sync c)

section

variable {N : NoiseC S} {together : Nat → S → S → Prop} {sending : S → T} {receiving : S → R}
  {Sync : T → R → Prop} {fuel : Nat} {c c' : Channel S} {p q : Party S} {w v : Endpoint S} {role : Role}

/-- A live stream from which nothing will come has only pauses left. -/
theorem replicate_of_live {rx : Net.Incoming} (hlive : rx.Live) (hbytes : rx.bytes = []) :
    ∃ a, rx = ⟨List.replicate a .again, false⟩ := by
  obtain ⟨items, closed⟩ := rx
  obtain rfl : closed = false := hlive.closed
  refine ⟨items.length, congrArg (fun items => Net.Incoming.mk items false) (List.eq_replicate_of_mem ?_)⟩
  intro item hitem
  cases item with
  | again => rfl
  | error => exact absurd hitem hlive.error
  | data b bs =>
    have hnone := List.flatMap_eq_nil_iff.mp hbytes _ hitem
    cases hnone

theorem idle_of_like {size : Nat} (hlike : v.Like w) (h : w.Idle size) : v.Idle size := by
  refine ⟨?_, ?_, ?_, ?_, ?_⟩
  · rw [hlike.nc, hlike.id]
    exact h.connection
  · rw [hlike.nc]
    exact h.buffer_size
  · rw [hlike.nc]
    exact h.to_send
  · rw [hlike.nc]
    exact h.send_buf
  · have halloc : v.ngx_alloc.1 = w.ngx_alloc.1 := by
      simp only [ngx_alloc, hlike.env]
    rw [halloc]
    exact h.alloc

theorem Opens.congr {s : S} (h : Opens N w s) (hkeys : ngx_noise_protocol.SameKeys w v) : Opens N v s := by
  obtain ⟨n, u, hn, hinit, hstart⟩ := h
  have hsame := ngx_noise_protocol.init_handshake_same N hkeys
  rw [hinit] at hsame
  generalize hr : ngx_noise_protocol.init_handshake N v = r at hsame
  cases hsame with
  | ok obs hkeys' htrace htrace' =>
    refine ⟨n, _, hn, hr, ?_⟩
    rw [hkeys'.noise, hstart]

theorem awaiting_of_like {u : Endpoint S} (hlike : v.Like u) (h : Awaiting N u) : Awaiting N v := by
  refine ⟨Granted.of_like hlike h.granted.events h.granted.allocs h.granted.eof, ?_, ?_, ?_, ?_, ?_, ?_, ?_⟩
  · rw [hlike.nc]
    exact h.phase
  · rw [hlike.nc]
    exact h.num
  · rw [hlike.nc]
    exact h.neg
  · rw [hlike.nc]
    exact h.msg
  · rw [hlike.nc]
    exact h.buf
  · rw [hlike.nc]
    exact h.last
  · rw [hlike.noise]
    exact h.action

theorem early_of_like {u : Endpoint S} (hlike : v.Like u) (hidle : u.Idle 0)
    (hhandshaked : u.nc.handshaked = false) (hfailed : p.failed = false) : ({ p with w := v } : Party S).Early := by
  refine ⟨idle_of_like hlike hidle, ?_, hfailed⟩
  show v.nc.handshaked = false
  rw [hlike.nc, hhandshaked]

/-- A call that has found nothing to read changes nothing that the handshake depends on. -/
theorem Party.Early.looked {rx : Net.Incoming} (h : p.Early)
    (hlike : v.Like ((p.w.leaving rx).setLast NOISE_ACTION_READ_MESSAGE)) :
    ({ p with w := v } : Party S).Early := by
  have hidle := h.idle
  exact early_of_like hlike ⟨hidle.connection, hidle.buffer_size, hidle.to_send, hidle.send_buf, hidle.alloc⟩
    h.handshaked h.failed

/-- A call of the handshake that waits. -/
theorem steps_waiting {rx : Net.Incoming} (hcall : c.near.w.do_handshake_process N fuel = ok (NGX_AGAIN, v))
    (hlike : v.Like ((c.near.w.leaving rx).setLast NOISE_ACTION_READ_MESSAGE))
    (hunset : c.near.w.nc.noise_msg = .unset) :
    Steps N fuel .handshake c { c with near := { c.near with w := v } } := by
  have htx : v.env.tx = c.near.w.env.tx ++ [] := by
    rw [hlike.env, List.append_nil]
    rfl
  have hstep := apply_handshake hcall (.inr rfl) htx
  rw [List.append_nil] at hstep
  refine ⟨hstep, fun _ => ?_⟩
  show v.nc.noise_msg = .unset
  rw [hlike.nc]
  exact hunset

theorem unstarted_restock (h : Unstarted role p.w) (harrives : Arrives p q) : Unstarted role q.w := by
  obtain ⟨⟨rx, pending, rfl⟩, -, -⟩ := harrives
  exact ⟨⟨h.granted.events, h.granted.allocs, h.granted.eof⟩, h.phase, h.role, h.num, h.neg, h.msg, h.buf⟩

theorem awaiting_restock (h : Awaiting N p.w) (harrives : Arrives p q) : Awaiting N q.w := by
  obtain ⟨⟨rx, pending, rfl⟩, -, -⟩ := harrives
  exact ⟨⟨h.granted.events, h.granted.allocs, h.granted.eof⟩, h.phase, h.num, h.neg, h.msg, h.buf, h.last,
    h.action⟩

theorem Party.Early.restock (h : p.Early) (harrives : Arrives p q) : q.Early := by
  obtain ⟨⟨rx, pending, rfl⟩, -, -⟩ := harrives
  exact ⟨⟨h.idle.connection, h.idle.buffer_size, h.idle.to_send, h.idle.send_buf, h.idle.alloc⟩, h.handshaked,
    h.failed⟩

theorem Opens.restock {s : S} (h : Opens N p.w s) (harrives : Arrives p q) : Opens N q.w s := by
  obtain ⟨⟨rx, pending, rfl⟩, -, -⟩ := harrives
  exact h.congr ⟨rfl, rfl, rfl, rfl, rfl⟩

theorem Opens.restock_headed {s : S} (h : Opens N p.w.headed s) (harrives : Arrives p q) :
    Opens N q.w.headed s := by
  obtain ⟨⟨rx, pending, rfl⟩, -, -⟩ := harrives
  exact h.congr ⟨rfl, rfl, rfl, rfl, rfl⟩

theorem Arrives.noise (h : Arrives p q) : q.w.noise = p.w.noise := by
  obtain ⟨⟨rx, pending, rfl⟩, -, -⟩ := h
  rfl

theorem Arrives.nc (h : Arrives p q) : q.w.nc = p.w.nc := by
  obtain ⟨⟨rx, pending, rfl⟩, -, -⟩ := h
  rfl

theorem Arrives.history (h : Arrives p q) : q.history = p.history := by
  obtain ⟨⟨rx, pending, rfl⟩, -, -⟩ := h
  rfl

theorem Arrives.prologue (h : Arrives p q) : q.w.prologue = p.w.prologue := by
  obtain ⟨⟨rx, pending, rfl⟩, -, -⟩ := h
  rfl

theorem Channel.Early.restock_near (h : c.Early) (harrives : Arrives c.near q) :
    ({ c with near := q } : Channel S).Early :=
  ⟨h.near.restock harrives, h.far, harrives.history.trans h.near_history, h.far_history⟩

theorem Channel.Early.restock_far (h : c.Early) (harrives : Arrives c.far q) :
    ({ c with far := q } : Channel S).Early :=
  ⟨h.near, h.far.restock harrives, h.near_history, harrives.history.trans h.far_history⟩

theorem takes_all_of_le {len more : Nat} (h : w.takes_all more = true) (hle : len ≤ more) :
    w.takes_all len = true := by
  unfold takes_all at h ⊢
  cases hsends : w.env.sends with
  | nil => rfl
  | cons answer sends =>
    rw [hsends] at h
    cases answer with
    | count limit =>
      have hlimit : more ≤ limit := by simpa [Sent.takes_all] using h
      exact decide_eq_true (hle.trans hlimit)
    | again | error => cases h

theorem length_handshake_frame (neg message : List UInt8) :
    (handshake_frame neg message).length = 4 + neg.length + message.length := by
  simp [handshake_frame, lenBytes]
  omega

/-- A network act at either end in any stage in which that end is in its handshake. -/
theorem network_step {act : SessionAct} (hallowed : act.Allowed c) (hearly : c.near.Early)
    (hact : ∃ a, act = .data a ∧ (a = .pause ∨ ∃ n, a = .deliver n)) :
    ∃ q, Arrives c.near q ∧ Steps N fuel act c { c with near := q } := by
  obtain ⟨a, rfl, ha⟩ := hact
  have hstep : ∃ c', a.apply N fuel c = ok c' := by
    obtain rfl | ⟨n, rfl⟩ := ha
    · exact ⟨_, rfl⟩
    · simp only [Act.apply]
      split <;> exact ⟨_, rfl⟩
  obtain ⟨c', hstep⟩ := hstep
  obtain ⟨q, harrives, rfl⟩ := apply_network ha hallowed hearly.handshaked hstep
  exact ⟨q, harrives, hstep, by rintro ⟨⟩⟩

theorem Opened.near_step {s t : S} (h : Opened N together s t c)
    (hN : N.Interactive together sending receiving Sync) (hfuel : 3 ≤ fuel) {act : SessionAct}
    (hallowed : act.Allowed c) :
    ∃ c', Steps N fuel act c c' ∧ SessionStage N together sending receiving Sync c' := by
  obtain rfl | hnetwork := act.cases_of_early hallowed h.early.near.handshaked
  · obtain ⟨message, s', t', hpasses, htogether⟩ := hN.first s t h.together
    obtain ⟨second, s'', t'', hsecond, -⟩ := hN.second s' t' htogether
    obtain ⟨n, u, hn, hinit, rfl⟩ := h.near_opens
    have htakes : c.near.w.takes_all (handshake_frame proxy_prologue.header.bytes message).length = true := by
      apply takes_all_of_le hallowed.2
      have hshort := hpasses.short
      rw [length_handshake_frame, show proxy_prologue.header.bytes.length = 6 from rfl]
      omega
    obtain ⟨sends, v, hcall, hlike⟩ := h.near.client_call (show 0 < fuel by omega) h.prologue hn hinit hpasses
      hsecond.reads htakes
    have htx : v.env.tx = c.near.w.env.tx ++ handshake_frame proxy_prologue.header.bytes message := by
      rw [hlike.env]
    have hrx : v.env.rx = c.near.w.env.rx := by rw [hlike.env]
    have hnoise : v.noise = s' := hlike.noise
    have hunset : v.nc.noise_msg = .unset := by
      rw [hlike.nc]
      exact h.near.msg
    have hidle := h.early.near.idle
    have hv_early : ({ c.near with w := v } : Party S).Early :=
      early_of_like hlike ⟨hidle.connection, hidle.buffer_size, hidle.to_send, hidle.send_buf, hidle.alloc⟩
        h.early.near.handshaked h.early.near.failed
    have hv : Awaiting N v := awaiting_of_like hlike
      ⟨⟨h.near.granted.events, h.near.granted.allocs, h.near.granted.eof⟩, rfl, .inl rfl, h.near.neg, h.near.msg,
        rfl, .inl rfl, hsecond.reads⟩
    refine ⟨_, ⟨apply_handshake hcall (.inr rfl) htx, fun _ => hunset⟩,
      .greeted (N.handshakestate_start u.noise).2 t t' message
        ⟨hv, ?_, h.far, ⟨hv_early, ⟨h.early.far.idle, h.early.far.handshaked, h.early.far.failed⟩,
          h.early.near_history, h.early.far_history⟩, ⟨?_, h.near_bare.pending⟩, ?_, h.far_opens, ?_, ?_⟩⟩
    · rw [hlike.nc]
    · rw [hrx]
      exact h.near_bare.rx
    · obtain ⟨a, hfar_rx⟩ := h.far_bare.rx
      refine .pending a hfar_rx ?_
      rw [h.far_bare.pending, List.nil_append, List.append_nil]
    · rw [hnoise]
      exact hpasses
    · rw [hnoise]
      exact htogether
  · obtain ⟨q, harrives, hstep⟩ := network_step hallowed h.early.near hnetwork
    exact ⟨_, hstep, .opened s t ⟨unstarted_restock h.near harrives, h.far, h.early.restock_near harrives,
      harrives.bare h.near_bare, h.far_bare, harrives.prologue.trans h.prologue, h.near_opens.restock harrives,
      h.far_opens, h.together⟩⟩

/-- A server that has found nothing to read. -/
theorem opens_looked {rx : Net.Incoming} {t : S} (h : Opens N w.headed t)
    (hlike : v.Like ((w.leaving rx).setLast NOISE_ACTION_READ_MESSAGE)) : Opens N v.headed t := by
  refine h.congr ⟨hlike.noise, ?_, hlike.mem, ?_, ?_⟩
  · show ({ v.prologue with header := proxy_prologue.header } : PrologueData) = _
    rw [hlike.prologue]
    exact rfl
  · show v.nc.noise_ctx = w.nc.noise_ctx
    rw [hlike.nc]
    rfl
  · show v.nc.noise_role = w.nc.noise_role
    rw [hlike.nc]
    rfl

theorem Opened.far_step {s t : S} (h : Opened N together s t c) (hfuel : 3 ≤ fuel) {act : SessionAct}
    (hallowed : act.Allowed c.swap) :
    ∃ c', Steps N fuel act c.swap c' ∧ SessionStage N together sending receiving Sync c'.swap := by
  obtain rfl | hnetwork := act.cases_of_early hallowed h.early.far.handshaked
  · obtain ⟨rx, hrecv, hbare⟩ := h.far_bare.recv NGX_NSOC_LEN_FIELD_SIZE
    obtain ⟨v, hcall, hv, hlike⟩ := h.far.again (N := N) (show 2 ≤ fuel by omega) hrecv
    have hrx : v.env.rx = rx := by
      rw [hlike.env]
      rfl
    exact ⟨_, steps_waiting (c := c.swap) hcall hlike h.far.msg, .opened s t ⟨h.near, hv,
      ⟨h.early.near, h.early.far.looked hlike, h.early.near_history, h.early.far_history⟩, h.near_bare,
      hbare v hrx, h.prologue, h.near_opens, opens_looked h.far_opens hlike, h.together⟩⟩
  · obtain ⟨q, harrives, hstep⟩ := network_step hallowed h.early.far hnetwork
    exact ⟨_, hstep, .opened s t ⟨h.near, unstarted_restock h.far harrives, h.early.restock_far harrives,
      h.near_bare, harrives.bare h.far_bare, h.prologue, h.near_opens, h.far_opens.restock_headed harrives,
      h.together⟩⟩

theorem Greeted.near_step {s t t' : S} {message : List UInt8} (h : Greeted N together s t t' message c)
    (hfuel : 3 ≤ fuel) {act : SessionAct} (hallowed : act.Allowed c) :
    ∃ c', Steps N fuel act c c' ∧ SessionStage N together sending receiving Sync c' := by
  obtain rfl | hnetwork := act.cases_of_early hallowed h.early.near.handshaked
  · obtain ⟨rx, hrecv, hbare⟩ := h.near_bare.recv NGX_NSOC_LEN_FIELD_SIZE
    obtain ⟨v, hcall, hv, hlike⟩ := h.near.again (show 2 ≤ fuel by omega) hrecv
    have hrx : v.env.rx = rx := by
      rw [hlike.env]
      rfl
    have hnoise : v.noise = c.near.w.noise := hlike.noise
    refine ⟨_, steps_waiting hcall hlike h.near.msg, .greeted s t t' message ⟨hv, ?_, h.far,
      ⟨h.early.near.looked hlike, h.early.far, h.early.near_history, h.early.far_history⟩, hbare v hrx,
      h.far_expects, h.far_opens, ?_, ?_⟩⟩
    · rw [hlike.nc]
      exact h.near_num
    · rw [hnoise]
      exact h.passes
    · rw [hnoise]
      exact h.together
  · obtain ⟨q, harrives, hstep⟩ := network_step hallowed h.early.near hnetwork
    refine ⟨_, hstep, .greeted s t t' message ⟨awaiting_restock h.near harrives, ?_, h.far,
      h.early.restock_near harrives, harrives.bare h.near_bare, h.far_expects, h.far_opens, ?_, ?_⟩⟩
    · rw [harrives.nc, h.near_num]
    · rw [harrives.noise]
      exact h.passes
    · rw [harrives.noise]
      exact h.together

theorem Greeted.far_step {s t t' : S} {message : List UInt8} (h : Greeted N together s t t' message c)
    (hN : N.Interactive together sending receiving Sync) (hfuel : 3 ≤ fuel) {act : SessionAct}
    (hallowed : act.Allowed c.swap) :
    ∃ c', Steps N fuel act c.swap c' ∧ SessionStage N together sending receiving Sync c'.swap := by
  obtain rfl | hnetwork := act.cases_of_early hallowed h.early.far.handshaked
  · obtain ⟨rx, hrecv, hexpects⟩ | ⟨left, hlead, hlive, hlater⟩ := h.far_expects.recv NGX_NSOC_LEN_FIELD_SIZE
    · obtain ⟨v, hcall, hv, hlike⟩ := h.far.again (N := N) (show 2 ≤ fuel by omega) hrecv
      have hrx : v.env.rx = rx := by
        rw [hlike.env]
        rfl
      exact ⟨_, steps_waiting (c := c.swap) hcall hlike h.far.msg, .greeted s t t' message ⟨h.near, h.near_num, hv,
        ⟨h.early.near, h.early.far.looked hlike, h.early.near_history, h.early.far_history⟩, h.near_bare,
        hexpects v hrx, opens_looked h.far_opens hlike, h.passes, h.together⟩⟩
    · -- The first message is there: the server answers it.
      obtain ⟨second, s'', t'', hsecond, htogether⟩ := hN.second _ _ h.together
      obtain ⟨third, s₃, t₃, hthird, -⟩ := hN.third _ _ htogether
      obtain ⟨n, u, hn, hinit, rfl⟩ := h.far_opens
      have htakes : c.far.w.takes_all (handshake_frame [] second).length = true := by
        apply takes_all_of_le hallowed.2
        have hshort := hsecond.short
        rw [length_handshake_frame, List.length_nil]
        omega
      obtain ⟨sends, v, hcall, hlike⟩ := h.far.server_call (show 2 ≤ fuel by omega) hn hinit h.passes hsecond
        hthird.reads hlead htakes
      have htx : v.env.tx = c.far.w.env.tx ++ handshake_frame [] second := by rw [hlike.env]
      have hrx : v.env.rx = left := by rw [hlike.env]
      have hnoise : v.noise = t'' := hlike.noise
      have hunset : v.nc.noise_msg = .unset := by rw [hlike.nc]
      have hidle := h.early.far.idle
      have hv_early : ({ c.far with w := v } : Party S).Early :=
        early_of_like hlike ⟨hidle.connection, hidle.buffer_size, hidle.to_send, hidle.send_buf, hidle.alloc⟩
          h.early.far.handshaked h.early.far.failed
      have hv : Awaiting N v := awaiting_of_like hlike
        ⟨⟨h.far.granted.events, h.far.granted.allocs, h.far.granted.eof⟩, rfl, .inr rfl, rfl, rfl, rfl, .inl rfl,
          hthird.reads⟩
      obtain ⟨hleft, hpending⟩ := List.append_eq_nil_iff.mp hlater
      refine ⟨_, ⟨apply_handshake (c := c.swap) hcall (.inr rfl) htx, fun _ => hunset⟩, .answered t' s'' second
        ⟨?_, h.near_num, hv, ?_, ⟨⟨h.early.near.idle, h.early.near.handshaked, h.early.near.failed⟩, hv_early,
          h.early.near_history, h.early.far_history⟩, ?_, ⟨?_, hpending⟩, ?_, ?_⟩⟩
      · exact h.near
      · show v.nc.msg_num = NGX_NSOC_3MSG
        rw [hlike.nc]
      · obtain ⟨a, hnear_rx⟩ := h.near_bare.rx
        refine .pending a hnear_rx ?_
        show c.near.pending ++ handshake_frame [] second = _
        rw [h.near_bare.pending, List.nil_append, List.append_nil]
      · show ∃ a, v.env.rx = ⟨List.replicate a .again, false⟩
        rw [hrx]
        exact replicate_of_live hlive hleft
      · show N.Passes t' c.near.w.noise second v.noise s''
        rw [hnoise]
        exact hsecond
      · show together 2 s'' v.noise
        rw [hnoise]
        exact htogether
  · obtain ⟨q, harrives, hstep⟩ := network_step hallowed h.early.far hnetwork
    refine ⟨_, hstep, .greeted s t t' message ⟨h.near, h.near_num, unstarted_restock h.far harrives,
      h.early.restock_far harrives, h.near_bare, harrives.expects _ _ _ ?_ h.passes.short h.far_expects,
      h.far_opens.restock_headed harrives, h.passes, h.together⟩⟩
    exact show proxy_prologue.header.bytes.length < 65536 by decide

end

end ngx_nsoc
