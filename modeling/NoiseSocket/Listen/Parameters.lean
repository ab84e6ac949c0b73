import NoiseSocket.Listen.Directive
import NoiseSocket.Listen.Ports

namespace ngx_nsoc

open ngx_nsoc_variables (ngx_strncmp)
open ngx_nsoc_upstream (bytes ngx_strcmp)

variable {C : Type} {core : ListenCore}

theorem headD_of_strncmp {s t : List UInt8} {n : Nat} (h : ngx_strncmp s t (n + 1) = 0) :
    s.headD 0 = t.headD 0 := by
  by_contra hne
  have hnat : (s.headD 0).toNat ≠ (t.headD 0).toNat := fun heq => hne (UInt8.toNat_inj.mp heq)
  rw [ngx_strncmp, if_pos hne] at h
  omega

theorem headD_of_strcmp {s t : List UInt8} (h : ngx_strcmp s t = 0) : s.headD 0 = t.headD 0 :=
  headD_of_strncmp h

/-- A parameter for which a directive is bound explicitly, with an address of the family `family`. -/
def binds (family : Family) (value : List UInt8) : Prop :=
  ngx_strcmp value (bytes ['b', 'i', 'n', 'd']) = 0 ∨
  ngx_strncmp value (bytes ['b', 'a', 'c', 'k', 'l', 'o', 'g', '=']) 8 = 0 ∨
  (family = .inet6 ∧
    ngx_strncmp value (bytes ['i', 'p', 'v', '6', 'o', 'n', 'l', 'y', '=', 'o']) 10 = 0) ∨
  ngx_strcmp value (bytes ['r', 'e', 'u', 's', 'e', 'p', 'o', 'r', 't']) = 0 ∨
  ngx_strncmp value
    (bytes ['s', 'o', '_', 'k', 'e', 'e', 'p', 'a', 'l', 'i', 'v', 'e', '=']) 13 = 0

instance (family : Family) (value : List UInt8) : Decidable (binds family value) :=
  inferInstanceAs (Decidable (_ ∨ _ ∨ _ ∨ _ ∨ _))

/-- The directive has no options for a socket. -/
def ListenOpt.Plain (core : ListenCore) (l : ListenOpt C) : Prop :=
  l.backlog = core.NGX_LISTEN_BACKLOG ∧ l.ipv6only = true ∧ l.reuseport = false ∧ l.so_keepalive = 0 ∧
    l.tcp_keepidle = 0 ∧ l.tcp_keepintvl = 0 ∧ l.tcp_keepcnt = 0

/-- What the parameters `values` make of a directive. -/
structure ListenOpt.Configured (core : ListenCore) (l : ListenOpt C)
    (values : List (List UInt8)) (l' : ListenOpt C) : Prop where
  family : l'.family = l.family
  addr : l'.addr = l.addr
  port : l'.port = l.port
  wildcard : l'.wildcard = l.wildcard
  ctx : l'.ctx = l.ctx
  type : l'.type = .dgram ↔ l.type = .dgram ∨ ∃ value ∈ values, ngx_strcmp value (bytes ['u', 'd', 'p']) = 0
  noise_on : l'.noise_on = true ↔
    l.noise_on = true ∨ ∃ value ∈ values, ngx_strcmp value (bytes ['n', 'o', 'i', 's', 'e']) = 0
  bind : l'.bind = true ↔ l.bind = true ∨ ∃ value ∈ values, binds l.family value
  plain : l'.bind = false → l.Plain core → l'.Plain core

/-- The words are told apart by their first letters. -/
theorem strcmp_ne_of_headD {value : List UInt8} (word : List Char) {letter : UInt8}
    (hletter : value.headD 0 = letter) (hne : (bytes word).headD 0 ≠ letter) :
    ngx_strcmp value (bytes word) ≠ 0 :=
  fun h => hne ((headD_of_strcmp h).symm.trans hletter)

theorem headD_of_binds {family : Family} {value : List UInt8} (h : binds family value) :
    value.headD 0 = 98 ∨ (family = .inet6 ∧ value.headD 0 = 105) ∨ value.headD 0 = 114 ∨
      value.headD 0 = 115 := by
  obtain h | h | ⟨hfamily, h⟩ | h | h := h
  · exact .inl (headD_of_strcmp h)
  · exact .inl (headD_of_strncmp h)
  · exact .inr (.inl ⟨hfamily, headD_of_strncmp h⟩)
  · exact .inr (.inr (.inl (headD_of_strcmp h)))
  · exact .inr (.inr (.inr (headD_of_strncmp h)))

section

variable {l l' l'' : ListenOpt C} {value : List UInt8} {values : List (List UInt8)}

theorem tcp_keepalive_frame {text : List UInt8} (h : tcp_keepalive core l text = some l') :
    l'.toListen = l.toListen := by
  unfold tcp_keepalive at h
  simp only at h
  split at h
  · cases h
  split at h
  · cases h
  split at h
  · cases h
  split_ifs at h
  cases h
  rfl

/-- A parameter that binds the directive changes nothing that the directive serves. -/
theorem ListenOpt.Configured.of_binds (hbinds : binds l.family value)
    (hframe : l'.toListen = { l.toListen with bind := true }) : l.Configured core [value] l' := by
  have hletter := headD_of_binds hbinds
  have hudp : ngx_strcmp value (bytes ['u', 'd', 'p']) ≠ 0 := by
    intro h
    rw [headD_of_strcmp h] at hletter
    simp [bytes] at hletter
  have hnoise : ngx_strcmp value (bytes ['n', 'o', 'i', 's', 'e']) ≠ 0 := by
    intro h
    rw [headD_of_strcmp h] at hletter
    simp [bytes] at hletter
  constructor <;> simp [hframe, hudp, hnoise, hbinds]

/-- A parameter that does not bind the directive. -/
theorem ListenOpt.Configured.of_letter {letter : UInt8} (hletter : value.headD 0 = letter)
    (hbinds : letter ≠ 98 ∧ (l.family = .inet6 → letter ≠ 105) ∧ letter ≠ 114 ∧ letter ≠ 115)
    (hplain : l.Plain core → l'.Plain core) (hbind : l'.bind = l.bind)
    (hframe : l'.family = l.family ∧ l'.addr = l.addr ∧ l'.port = l.port ∧ l'.wildcard = l.wildcard ∧
      l'.ctx = l.ctx)
    (htype : l'.type = .dgram ↔ l.type = .dgram ∨ ngx_strcmp value (bytes ['u', 'd', 'p']) = 0)
    (hnoise : l'.noise_on = true ↔
      l.noise_on = true ∨ ngx_strcmp value (bytes ['n', 'o', 'i', 's', 'e']) = 0) :
    l.Configured core [value] l' := by
  have hnot : ¬ binds l.family value := by
    intro h
    have hhead := headD_of_binds h
    rw [hletter] at hhead
    tauto
  obtain ⟨hfamily, haddr, hport, hwildcard, hctx⟩ := hframe
  refine ⟨hfamily, haddr, hport, hwildcard, hctx, ?_, ?_, ?_, fun _ => hplain⟩
  · simpa using htype
  · simpa using hnoise
  · simpa [hnot] using hbind

/-- One parameter. -/
theorem listen_param_spec {s s' : ListenParams C} (h : listen_param core s value = .ok s') :
    s.ls.Configured core [value] s'.ls := by
  unfold listen_param at h
  by_cases hudp : ngx_strcmp value (bytes ['u', 'd', 'p']) = 0
  · rw [if_pos hudp] at h
    cases h
    have hletter : value.headD 0 = 117 := headD_of_strcmp hudp
    have hnoise := strcmp_ne_of_headD ['n', 'o', 'i', 's', 'e'] hletter (by decide)
    exact .of_letter hletter (by simp) id rfl ⟨rfl, rfl, rfl, rfl, rfl⟩ (by simp [hudp]) (by simp [hnoise])
  rw [if_neg hudp] at h
  by_cases hbind : ngx_strcmp value (bytes ['b', 'i', 'n', 'd']) = 0
  · rw [if_pos hbind] at h
    cases h
    exact .of_binds (.inl hbind) rfl
  rw [if_neg hbind] at h
  by_cases hbacklog : ngx_strncmp value (bytes ['b', 'a', 'c', 'k', 'l', 'o', 'g', '=']) 8 = 0
  · rw [if_pos hbacklog] at h
    simp only at h
    split_ifs at h
    cases h
    exact .of_binds (.inr (.inl hbacklog)) rfl
  rw [if_neg hbacklog] at h
  by_cases hipv6only :
      ngx_strncmp value (bytes ['i', 'p', 'v', '6', 'o', 'n', 'l', 'y', '=', 'o']) 10 = 0
  · rw [if_pos hipv6only] at h
    have hletter : value.headD 0 = 105 := headD_of_strncmp hipv6only
    have hnoise := strcmp_ne_of_headD ['n', 'o', 'i', 's', 'e'] hletter (by decide)
    by_cases hfamily : s.ls.family ≠ .inet6
    · rw [if_pos hfamily] at h
      cases h
      exact .of_letter hletter (by simp [hfamily]) id rfl ⟨rfl, rfl, rfl, rfl, rfl⟩ (by simp [hudp])
        (by simp [hnoise])
    · rw [if_neg hfamily] at h
      have hbinds : binds s.ls.family value := .inr (.inr (.inl ⟨not_not.mp hfamily, hipv6only⟩))
      split_ifs at h <;> cases h <;> exact .of_binds hbinds rfl
  rw [if_neg hipv6only] at h
  by_cases hreuseport : ngx_strcmp value (bytes ['r', 'e', 'u', 's', 'e', 'p', 'o', 'r', 't']) = 0
  · rw [if_pos hreuseport] at h
    cases h
    exact .of_binds (.inr (.inr (.inr (.inl hreuseport)))) rfl
  rw [if_neg hreuseport] at h
  by_cases hnoise : ngx_strcmp value (bytes ['n', 'o', 'i', 's', 'e']) = 0
  · rw [if_pos hnoise] at h
    cases h
    have hletter : value.headD 0 = 110 := headD_of_strcmp hnoise
    exact .of_letter hletter (by simp) id rfl ⟨rfl, rfl, rfl, rfl, rfl⟩ (by simp [hudp]) (by simp [hnoise])
  rw [if_neg hnoise] at h
  by_cases hso_keepalive : ngx_strncmp value
      (bytes ['s', 'o', '_', 'k', 'e', 'e', 'p', 'a', 'l', 'i', 'v', 'e', '=']) 13 = 0
  · rw [if_pos hso_keepalive] at h
    have hbinds : binds s.ls.family value := .inr (.inr (.inr (.inr hso_keepalive)))
    split_ifs at h
    · cases h
      exact .of_binds hbinds rfl
    · cases h
      exact .of_binds hbinds rfl
    split at h
    · cases h
    rename_i ls htcp
    cases h
    refine .of_binds hbinds ?_
    rw [tcp_keepalive_frame htcp]
  rw [if_neg hso_keepalive] at h
  split_ifs at h with hproxy_protocol
  cases h
  have hletter : value.headD 0 = 112 := headD_of_strcmp hproxy_protocol
  exact .of_letter hletter (by simp) id rfl ⟨rfl, rfl, rfl, rfl, rfl⟩ (by simp [hudp]) (by simp [hnoise])

theorem ListenOpt.Configured.nil (l : ListenOpt C) : l.Configured core [] l := by
  constructor <;> simp

/-- The parameters one after the other. -/
theorem ListenOpt.Configured.cons (h : l.Configured core [value] l') (h' : l'.Configured core values l'') :
    l.Configured core (value :: values) l'' where
  family := h'.family.trans h.family
  addr := h'.addr.trans h.addr
  port := h'.port.trans h.port
  wildcard := h'.wildcard.trans h.wildcard
  ctx := h'.ctx.trans h.ctx
  type := by rw [h'.type, h.type, List.exists_mem_cons_iff]; simp [or_assoc]
  noise_on := by rw [h'.noise_on, h.noise_on, List.exists_mem_cons_iff]; simp [or_assoc]
  bind := by rw [h'.bind, h.bind, h.family, List.exists_mem_cons_iff]; simp [or_assoc]
  plain := by
    intro hbind hplain
    refine h'.plain hbind (h.plain ?_ hplain)
    by_contra hnot
    rw [h'.bind.mpr (.inl (by simpa using hnot))] at hbind
    cases hbind

theorem listen_params_spec {s s' : ListenParams C} (h : listen_params core s values = .ok s') :
    s.ls.Configured core values s'.ls := by
  induction values generalizing s with
  | nil =>
    cases h
    exact .nil _
  | cons value values ih =>
    unfold listen_params at h
    split at h
    · cases h
    · rename_i hparam
      exact (listen_param_spec hparam).cons (ih h)

end

/-- The directive has a parameter `word`. -/
def ListenDirective.Says (d : ListenDirective C) (word : List Char) : Prop :=
  ∃ value ∈ d.values, ngx_strcmp value (bytes word) = 0

instance (d : ListenDirective C) (word : List Char) : Decidable (d.Says word) :=
  inferInstanceAs (Decidable (∃ value ∈ d.values, _))

/-- The type of the socket that the text of the directive asks for. -/
def ListenDirective.type (d : ListenDirective C) : SockType :=
  if d.Says ['u', 'd', 'p'] then .dgram else .stream

/-- The connections of the directive are to be protected. -/
def ListenDirective.noise_on (d : ListenDirective C) : Bool := decide (d.Says ['n', 'o', 'i', 's', 'e'])

/-- What `ngx_nsoc_core_listen` makes of the text of a directive. -/
structure ListenDirective.Accepted (core : ListenCore) (d : ListenDirective C) (l : ListenOpt C) : Prop where
  url : core.parse_url d.url = some ⟨l.family, l.addr, l.port, l.wildcard⟩
  ctx : l.ctx = d.ctx
  type : l.type = d.type
  noise_on : l.noise_on = d.noise_on
  bind : l.bind = true ↔ ∃ value ∈ d.values, binds l.family value
  plain : l.bind = false → l.Plain core
  stream : l.noise_on = true → l.type = .stream

theorem ListenOpt.Configured.accepted {u : ListenUrl} {d : ListenDirective C} {l : ListenOpt C}
    (hurl : core.parse_url d.url = some u) (h : (u.opt core d.ctx).Configured core d.values l)
    (hudp : ¬ (l.type = .dgram ∧ l.noise_on = true)) : d.Accepted core l where
  url := by
    rw [hurl, h.family, h.addr, h.port, h.wildcard]
    rfl
  ctx := h.ctx
  type := by
    have htype : l.type = .dgram ↔ d.Says ['u', 'd', 'p'] := by
      rw [h.type, ListenDirective.Says]
      simp [ListenUrl.opt]
    unfold ListenDirective.type
    split_ifs with hsays
    · exact htype.mpr hsays
    · cases hl : l.type with
      | stream => rfl
      | dgram => exact absurd (htype.mp hl) hsays
  noise_on := by
    rw [Bool.eq_iff_iff, h.noise_on, ListenDirective.noise_on, decide_eq_true_eq, ListenDirective.Says]
    simp [ListenUrl.opt]
  bind := by
    rw [h.bind, h.family]
    simp [ListenUrl.opt]
  plain := fun hbind => h.plain hbind ⟨rfl, rfl, rfl, rfl, rfl, rfl, rfl⟩
  stream := by
    intro hnoise
    cases hl : l.type with
    | stream => rfl
    | dgram => exact absurd ⟨hl, hnoise⟩ hudp

section

variable {d : ListenDirective C} {directives : List (ListenDirective C)} {listen listen' : List (ListenOpt C)}

/-- A directive that is not refused. -/
theorem core_listen_directive_cases (h : core_listen_directive core listen d = .ok listen') :
    ∃ l, d.Accepted core l ∧ listen' = listen ++ [l] ∧
      core_listen (listen.map ListenOpt.toListen) l.toListen =
        some (listen'.map ListenOpt.toListen) := by
  unfold core_listen_directive at h
  split at h
  · cases h
  rename_i u hurl
  split at h
  · cases h
  rename_i s hparams
  split_ifs at h with hbacklog hnoise hso_keepalive hproxy_protocol hsame
  cases h
  refine ⟨s.ls, (listen_params_spec hparams).accepted hurl hnoise, rfl, ?_⟩
  have hnone : ¬ ∃ als ∈ listen.map ListenOpt.toListen, als.same s.ls.toListen := by
    rintro ⟨als, hals, hsameals⟩
    obtain ⟨l, hl, rfl⟩ := List.mem_map.mp hals
    exact hsame ⟨l, hl, hsameals⟩
  rw [core_listen, if_neg hnoise, if_neg hnone, List.map_append, List.map_singleton]

/-- The directives of an accepted configuration, one after the other. -/
theorem core_listen_directives_spec
    (h : core_listen_directives core listen directives = .ok listen')
    (hdistinct : Distinct (listen.map ListenOpt.toListen)) :
    Distinct (listen'.map ListenOpt.toListen) ∧
      ∃ added, listen' = listen ++ added ∧ List.Forall₂ (ListenDirective.Accepted core) directives added := by
  induction directives generalizing listen with
  | nil =>
    cases h
    exact ⟨hdistinct, [], (List.append_nil _).symm, .nil⟩
  | cons d directives ih =>
    unfold core_listen_directives at h
    split at h
    · cases h
    rename_i listen₁ hd
    obtain ⟨l, hl, rfl, hadd⟩ := core_listen_directive_cases hd
    obtain ⟨hdistinct', added, rfl, hadded⟩ := ih h (core_listen_distinct hdistinct hadd)
    exact ⟨hdistinct', l :: added, List.append_cons .. |>.symm, .cons hl hadded⟩

end

end ngx_nsoc
