import NoiseSocket.Upstream.Selection
import NoiseSocket.Upstream.Table.Keys

open Exec Exec.Result

namespace ngx_nsoc_upstream

open ngx_nsoc

section

variable {core : Core} {u : Url} {text file_name : List UInt8} {flags line i : Nat}
  {upstreams upstreams' : List UpstreamSrvConf}

/-- A parameter of `server` leaves a positive weight. -/
theorem server_param_weight {us us' : Server} {value : List UInt8}
    (h : server_param core flags us value = .ok us') (hweight : 1 ≤ us.weight) : 1 ≤ us'.weight := by
  unfold server_param at h
  split_ifs at h
  · split at h
    · cases h
    · split_ifs at h with hzero
      cases h
      exact Nat.pos_of_ne_zero hzero
  -- No other parameter sets the weight.
  · split at h <;> cases h
    exact hweight
  · split at h <;> cases h
    exact hweight
  · split at h <;> cases h
    exact hweight
  · cases h
    exact hweight
  · cases h
    exact hweight

theorem server_params_weight {us us' : Server} {values : List (List UInt8)}
    (h : server_params core flags us values = .ok us') (hweight : 1 ≤ us.weight) : 1 ≤ us'.weight := by
  induction values generalizing us with
  | nil =>
    cases h
    exact hweight
  | cons value values ih =>
    unfold server_params at h
    split at h
    · cases h
    · rename_i hparam
      exact ih h (server_param_weight hparam hweight)

/-- The servers of a block have positive weights, whatever the directives say. -/
theorem upstream_servers_weight {servers servers' : List Server}
    {block : List (List UInt8 × List (List UInt8))} (h : upstream_servers core flags servers block = .ok servers')
    (hweight : ∀ server ∈ servers, 1 ≤ server.weight) : ∀ server ∈ servers', 1 ≤ server.weight := by
  induction block generalizing servers with
  | nil =>
    cases h
    exact hweight
  | cons directive block ih =>
    obtain ⟨url, values⟩ := directive
    unfold upstream_servers at h
    split at h
    · cases h
    · rename_i servers₁ hserver
      apply ih h
      unfold upstream_server at hserver
      split at hserver
      · cases hserver
      · rename_i us hparams
        split at hserver
        · cases hserver
        · split_ifs at hserver
          cases hserver
          intro server hmem
          obtain hold | hlast := List.mem_append.mp hmem
          · exact hweight server hold
          · obtain rfl := List.mem_singleton.mp hlast
            apply server_params_weight hparams
            exact Nat.le_refl 1

/-- What `ngx_nsoc_upstream` does: its upstream gets the servers of the block. -/
theorem upstream_cases {host : List UInt8} {block : List (List UInt8 × List (List UInt8))}
    (h : upstream core host block file_name line upstreams = .ok upstreams') :
    ∃ i upstreams₁ servers, upstream_add core host block_flags file_name line upstreams = .ok (i, upstreams₁) ∧
      (∀ server ∈ servers, 1 ≤ server.weight) ∧
      upstreams' = upstreams₁.modify i fun uscf => { uscf with servers := some servers } := by
  unfold upstream at h
  split at h
  · cases h
  · rename_i i upstreams₁ hadd
    split at h
    · cases h
    · rename_i servers hservers
      split_ifs at h
      cases h
      exact ⟨i, upstreams₁, servers, hadd, upstream_servers_weight hservers (by simp), rfl⟩

end

/-- An upstream between two directives. A block leaves it without a port and with servers of positive
weights, and `proxy_pass` alone with at most the one address that the URL is. -/
structure UpstreamSrvConf.Sound (uscf : UpstreamSrvConf) : Prop where
  no_port : uscf.no_port = true → uscf.port = 0
  block : created uscf.flags = true → uscf.no_port = true ∧
    ∃ servers, uscf.servers = some servers ∧ ∀ server ∈ servers, 1 ≤ server.weight
  pass : created uscf.flags = false → uscf.servers = none ∨ uscf.servers = some [address_server]

/-- What holds between two directives. -/
structure Configuration.Sound (core : Core) (conf : Configuration) : Prop where
  distinct : Distinct conf.upstreams
  upstreams : ∀ uscf ∈ conf.upstreams, uscf.Sound
  passes : ∀ url i, (url, i) ∈ conf.passes → ∃ u key, core.parse_url true url = some u ∧
    (keys conf.upstreams)[i]? = some key ∧ same_host key.1 u.host ∧ key.2 = u.port

section

variable {core : Core} {u : Url} {text file_name : List UInt8} {line i : Nat}
  {upstreams upstreams' : List UpstreamSrvConf}

theorem created_block_flags : created block_flags = true := rfl

theorem created_zero : created 0 = false := rfl

theorem upstream_sound {host : List UInt8} {block : List (List UInt8 × List (List UInt8))}
    (h : upstream core host block file_name line upstreams = .ok upstreams')
    (hsound : ∀ uscf ∈ upstreams, uscf.Sound) : ∀ uscf ∈ upstreams', uscf.Sound := by
  obtain ⟨i, upstreams₁, servers, hadd, hweight, rfl⟩ := upstream_cases h
  obtain ⟨u, hu, hcases⟩ := upstream_add_cases hadd
  -- What the array has at `i` has no port, and all its other upstreams were there before.
  have hplaces : ∀ j uscf, upstreams₁[j]? = some uscf →
      (j = i → uscf.no_port = true ∧ uscf.port = 0 ∧ uscf.flags = block_flags) ∧ (j ≠ i → uscf.Sound) := by
    intro j uscf hj
    obtain ⟨found, hi, -, -, hblock, rfl⟩ | ⟨-, rfl, rfl⟩ := hcases
    · rw [if_pos created_block_flags, List.getElem?_modify] at hj
      have hfound := hsound found (List.mem_of_getElem? hi)
      refine ⟨?_, ?_⟩
      · rintro rfl
        obtain ⟨old, hold, heq⟩ := Option.map_eq_some_iff.mp hj
        rw [hi] at hold
        cases hold
        rw [if_pos rfl] at heq
        subst heq
        exact ⟨hblock created_block_flags, hfound.no_port (hblock created_block_flags), rfl⟩
      · intro hne
        obtain ⟨old, hold, heq⟩ := Option.map_eq_some_iff.mp hj
        rw [if_neg (Ne.symm hne)] at heq
        subst heq
        exact hsound _ (List.mem_of_getElem? hold)
    · rw [Requests, if_pos created_block_flags] at hu
      cases hu
      refine ⟨?_, ?_⟩
      · rintro rfl
        simp only [List.getElem?_concat_length, Option.some.injEq] at hj
        subst hj
        exact ⟨rfl, rfl, rfl⟩
      · intro hne
        have hlt : j < upstreams.length := by
          have hle := (List.getElem?_eq_some_iff.mp hj).1
          rw [List.length_append, List.length_singleton] at hle
          omega
        rw [List.getElem?_append_left hlt] at hj
        exact hsound _ (List.mem_of_getElem? hj)
  intro uscf hmem
  obtain ⟨j, hj⟩ := List.mem_iff_getElem?.mp hmem
  rw [List.getElem?_modify] at hj
  obtain ⟨old, hold, heq⟩ := Option.map_eq_some_iff.mp hj
  obtain ⟨hat, hother⟩ := hplaces j old hold
  by_cases hji : i = j
  · obtain ⟨hno_port, hport, hflags⟩ := hat hji.symm
    rw [if_pos hji] at heq
    subst heq
    refine ⟨fun _ => hport, fun _ => ⟨hno_port, servers, rfl, hweight⟩, ?_⟩
    intro hcreated
    rw [hflags, created_block_flags] at hcreated
    cases hcreated
  · rw [if_neg hji] at heq
    subst heq
    exact hother (Ne.symm hji)

theorem proxy_pass_sound (hcore : core.Documented)
    (h : upstream_add core text 0 file_name line upstreams = .ok (i, upstreams'))
    (hsound : ∀ uscf ∈ upstreams, uscf.Sound) : ∀ uscf ∈ upstreams', uscf.Sound := by
  obtain ⟨u, hu, ⟨-, -, -, -, -, rfl⟩ | ⟨-, -, rfl⟩⟩ := upstream_add_cases h
  · exact hsound
  · intro uscf hmem
    obtain hold | hlast := List.mem_append.mp hmem
    · exact hsound uscf hold
    · obtain rfl := List.mem_singleton.mp hlast
      refine ⟨hcore.no_port _ _ _ hu, ?_, ?_⟩
      · intro hcreated
        rw [Url.upstream, created_zero] at hcreated
        cases hcreated
      · intro _
        simp only [Url.upstream]
        split_ifs
        · exact .inr rfl
        · exact .inl rfl

/-- The keys only grow at their end, and so do the passes keep what they found. -/
theorem Configuration.Sound.passes_grow {conf : Configuration} (h : conf.Sound core)
    (hgrows : keys conf.upstreams <+: keys upstreams') :
    ∀ url i, (url, i) ∈ conf.passes → ∃ u key, core.parse_url true url = some u ∧
      (keys upstreams')[i]? = some key ∧ same_host key.1 u.host ∧ key.2 = u.port := by
  intro url i hmem
  obtain ⟨u, key, hu, hi, hsame, hport⟩ := h.passes url i hmem
  obtain ⟨hlt, rfl⟩ := List.getElem?_eq_some_iff.mp hi
  refine ⟨u, _, hu, ?_, hsame, hport⟩
  rw [List.getElem?_eq_getElem (lt_of_lt_of_le hlt hgrows.length_le)]
  exact congrArg some (hgrows.getElem hlt).symm

theorem Configures.sound (hcore : core.Documented) {conf : Configuration} (h : Configures core conf) :
    conf.Sound core := by
  induction h with
  | init => exact ⟨List.Pairwise.nil, by simp, by simp⟩
  | upstream _ hblock ih =>
    obtain ⟨i, upstreams₁, servers, hadd, -, rfl⟩ := upstream_cases hblock
    obtain ⟨hgrows, hdistinct, -⟩ := upstream_add_keys hadd ih.distinct
    have hkeys : keys (upstreams₁.modify i fun uscf => { uscf with servers := some servers }) =
        keys upstreams₁ := keys_modify upstreams₁ i fun _ => rfl
    refine ⟨?_, upstream_sound hblock ih.upstreams, ih.passes_grow (by rwa [hkeys])⟩
    rwa [Distinct, hkeys]
  | proxy_pass _ hadd ih =>
    obtain ⟨hgrows, hdistinct, u, key, hu, hi, hsame, hport⟩ := upstream_add_keys hadd ih.distinct
    refine ⟨hdistinct, proxy_pass_sound hcore hadd ih.upstreams, ?_⟩
    intro url j hmem
    obtain hold | hlast := List.mem_append.mp hmem
    · exact ih.passes_grow hgrows url j hold
    · cases List.mem_singleton.mp hlast
      exact ⟨u, key, hu, hi, hsame, hport⟩

/-- At most one place has a host and a port. -/
theorem Distinct.eq_of_getElem? (h : Distinct upstreams) {i j : Nat} {a b : UpstreamSrvConf}
    (hi : upstreams[i]? = some a) (hj : upstreams[j]? = some b) (hsame : same_host a.host b.host)
    (hport : a.port = b.port) : i = j := by
  have hpairwise := List.pairwise_map.mp h
  obtain ⟨hlti, rfl⟩ := List.getElem?_eq_some_iff.mp hi
  obtain ⟨hltj, rfl⟩ := List.getElem?_eq_some_iff.mp hj
  obtain hlt | heq | hgt := Nat.lt_trichotomy i j
  · exact absurd ⟨hsame, hport⟩ (List.pairwise_iff_getElem.mp hpairwise i j hlti hltj hlt)
  · exact heq
  · exact absurd ⟨hsame.symm, hport.symm⟩ (List.pairwise_iff_getElem.mp hpairwise j i hltj hlti hgt)

/-- The upstream that a value of `proxy_pass` names is the one with its host and its port. -/
theorem find_upstream_eq (hdistinct : Distinct upstreams) (hu : u.no_port = true → u.port = 0)
    {uscf : UpstreamSrvConf} (hi : upstreams[i]? = some uscf) (hsame : same_host uscf.host u.host)
    (hport : uscf.port = u.port) : find_upstream upstreams u = some i := by
  obtain ⟨hlt, rfl⟩ := List.getElem?_eq_some_iff.mp hi
  rw [find_upstream, List.findIdx?_eq_some_iff_getElem]
  refine ⟨hlt, ?_, ?_⟩
  · simp only [decide_eq_true_eq]
    exact ⟨hsame.1, .inr hport, hsame.2⟩
  · intro j hj hfound
    simp only [decide_eq_true_eq] at hfound
    obtain ⟨hlength, hports, hcmp⟩ := hfound
    have hsame' : same_host upstreams[j].host upstreams[i].host :=
      same_host.trans ⟨hlength, hcmp⟩ hsame.symm
    have hport' : upstreams[j].port = upstreams[i].port := by
      obtain ⟨hzero, hno_port⟩ | heq := hports
      · rw [hport, hzero, hu hno_port]
      · rw [hport, heq]
    have heq := hdistinct.eq_of_getElem? (List.getElem?_eq_getElem (by omega)) (List.getElem?_eq_getElem hlt)
      hsame' hport'
    omega

/-- The peers of an upstream are made of its own configuration. -/
theorem upstream_init_main_conf_getElem? {all : List Upstream}
    (h : upstream_init_main_conf core upstreams = .ok all) (i : Nat) :
    (∀ uscf, upstreams[i]? = some uscf →
      ∃ us, all[i]? = some us ∧ upstream_init_round_robin core uscf = .ok us) ∧
    (upstreams[i]? = none → all[i]? = none) := by
  induction upstreams generalizing all i with
  | nil =>
    cases h
    exact ⟨by simp, fun _ => List.getElem?_nil⟩
  | cons uscf rest ih =>
    unfold upstream_init_main_conf at h
    split at h
    · cases h
    · rename_i us hus
      split at h
      · cases h
      · rename_i all' hrest
        cases h
        cases i with
        | zero =>
          refine ⟨?_, by simp⟩
          intro first hfirst
          cases hfirst
          exact ⟨us, rfl, hus⟩
        | succ i => simpa using ih hrest i

/-- The weight of each peer that competes with others is positive. -/
def Upstream.Weighted (us : Upstream) : Prop :=
  ∀ g peers, us.peers g = some peers → peers.single = false → ∀ peer ∈ peers.peer, 1 ≤ peer.weight

theorem weighted_init_round_robin {servers : List Server} {us : Upstream}
    (hweight : ∀ server ∈ servers, 1 ≤ server.weight) (h : init_round_robin servers = some us) :
    us.Weighted := by
  have hpeers : ∀ backup, ∀ peer ∈ server_peers backup servers, 1 ≤ peer.weight := by
    intro backup peer hpeer
    obtain ⟨server, hserver, hpeer⟩ := List.mem_flatMap.mp hpeer
    obtain rfl := List.eq_of_mem_replicate hpeer
    have hpos := hweight server (List.mem_filter.mp hserver).1
    exact Int.ofNat_le.mpr hpos
  simp only [init_round_robin] at h
  intro g peers hg _ peer hpeer
  split_ifs at h <;> cases h <;> cases g <;> cases hg
  · exact hpeers _ peer hpeer
  · exact hpeers _ peer hpeer
  · exact hpeers _ peer hpeer

/-- The peers of an upstream that the directives have left sound. -/
theorem UpstreamSrvConf.Sound.peers (hcore : core.Documented) {uscf : UpstreamSrvConf} {us : Upstream}
    (h : uscf.Sound) (hus : upstream_init_round_robin core uscf = .ok us) : us.Configured ∧ us.Weighted := by
  unfold upstream_init_round_robin at hus
  split at hus
  · rename_i servers hservers
    split at hus
    · cases hus
    · rename_i peers hpeers
      cases hus
      refine ⟨.inl ⟨servers, hpeers⟩, ?_⟩
      cases hcreated : created uscf.flags with
      | true =>
        obtain ⟨-, servers', hservers', hweight⟩ := h.block hcreated
        rw [hservers] at hservers'
        cases hservers'
        exact weighted_init_round_robin hweight hpeers
      | false =>
        -- The one address is the only peer.
        obtain hnone | haddress := h.pass hcreated
        · rw [hservers] at hnone
          cases hnone
        · rw [hservers] at haddress
          cases haddress
          cases hpeers
          intro g peers hg hmulti
          cases g with
          | primary =>
            cases hg
            cases hmulti
          | backup => cases hg
  · split_ifs at hus
    split at hus
    · cases hus
    · rename_i naddrs hresolve
      cases hus
      refine ⟨.inr ⟨naddrs, hcore.resolved _ _ _ hresolve, rfl⟩, ?_⟩
      intro g peers hg _ peer hpeer
      cases g with
      | primary =>
        cases hg
        obtain rfl := List.eq_of_mem_replicate hpeer
        exact Int.le_refl 1
      | backup => cases hg

/-- Whatever the order of the directives, a configuration that is accepted means what it says. Each
`proxy_pass` is bound to the upstream that the same text finds as the value of a variable, and a URL
without a port to the block of its name wherever the block stands. No name has two blocks. The peers of
every upstream are what the selection starts from: some primary peer, and positive weights wherever peers
compete. -/
theorem configuration_sound (hcore : core.Documented) {conf : Configuration} (h : Configures core conf)
    {all : List Upstream} (hinit : upstream_init_main_conf core conf.upstreams = .ok all) :
    (∀ url i, (url, i) ∈ conf.passes → ∃ u us, core.parse_url true url = some u ∧
      find_upstream conf.upstreams u = some i ∧ all[i]? = some us ∧
      ∀ j uscf, conf.upstreams[j]? = some uscf → created uscf.flags = true →
        same_host uscf.host u.host → u.no_port = true → j = i) ∧
    (∀ (i j : Nat) a b, conf.upstreams[i]? = some a → conf.upstreams[j]? = some b →
      created a.flags = true → created b.flags = true → same_host a.host b.host → i = j) ∧
    ∀ us ∈ all, us.Configured ∧ us.Weighted := by
  have hsound := h.sound hcore
  refine ⟨?_, ?_, ?_⟩
  · intro url i hmem
    obtain ⟨u, key, hu, hi, hsame, hport⟩ := hsound.passes url i hmem
    obtain ⟨uscf, huscf, rfl⟩ := Option.map_eq_some_iff.mp (List.getElem?_map ▸ hi)
    obtain ⟨us, hus, -⟩ := (upstream_init_main_conf_getElem? hinit i).1 uscf huscf
    have hno_port := hcore.no_port true url u hu
    refine ⟨u, us, hu, find_upstream_eq hsound.distinct hno_port huscf hsame hport, hus, ?_⟩
    intro j block hj hcreated hblock hu_port
    have hblock_sound := hsound.upstreams block (List.mem_of_getElem? hj)
    apply hsound.distinct.eq_of_getElem? hj huscf (hblock.trans hsame.symm)
    rw [hblock_sound.no_port (hblock_sound.block hcreated).1]
    exact (hport.trans (hno_port hu_port)).symm
  · intro i j a b hi hj ha hb hsame
    have ha_sound := hsound.upstreams a (List.mem_of_getElem? hi)
    have hb_sound := hsound.upstreams b (List.mem_of_getElem? hj)
    apply hsound.distinct.eq_of_getElem? hi hj hsame
    rw [ha_sound.no_port (ha_sound.block ha).1, hb_sound.no_port (hb_sound.block hb).1]
  · intro us hmem
    obtain ⟨i, hi⟩ := List.mem_iff_getElem?.mp hmem
    obtain ⟨hat, hbeyond⟩ := upstream_init_main_conf_getElem? hinit i
    cases huscf : conf.upstreams[i]? with
    | none =>
      rw [hbeyond huscf] at hi
      cases hi
    | some uscf =>
      obtain ⟨us', hus', hinit'⟩ := hat uscf huscf
      rw [hus'] at hi
      cases hi
      exact (hsound.upstreams uscf (List.mem_of_getElem? huscf)).peers hcore hinit'

/-- The name `b` has no port, and `a:80` has one address. -/
def one_server_core : Core where
  parse_url resolve url :=
    if url = bytes ['b'] then some ⟨url, 0, true, 0, false⟩
    else if url = bytes ['a', ':', '8', '0'] then some ⟨bytes ['a'], 80, false, resolve.not.toNat, false⟩
    else none
  inet_resolve_host _ _ := none
  atoi text := if text = bytes ['2'] then some 2 else none
  parse_time _ := none

theorem one_server_core_documented : one_server_core.Documented := by
  refine ⟨?_, ?_⟩
  · intro resolve url u hu hno_port
    simp only [one_server_core] at hu
    split_ifs at hu <;> cases hu
    · rfl
    · cases hno_port
  · intro host port naddrs hresolve
    cases hresolve

/-- The upstream `B` with two servers, of which one is a backup. -/
def block_upstream : UpstreamSrvConf :=
  ⟨some [⟨1, 2, 0, 1, 10, false, false⟩, ⟨1, 1, 0, 1, 10, false, true⟩], block_flags, bytes ['b'], [], 1, 0,
    true⟩

theorem configures_block_upstream :
    Configures one_server_core ⟨[block_upstream], [(bytes ['b'], 0), (bytes ['b'], 0)]⟩ := by
  have hadd : upstream_add one_server_core (bytes ['b']) 0 [] 1 [] =
      .ok (0, [⟨none, 0, bytes ['b'], [], 1, 0, true⟩]) := rfl
  have hblock : upstream one_server_core (bytes ['B'])
      [(bytes ['a', ':', '8', '0'], [bytes ['w', 'e', 'i', 'g', 'h', 't', '=', '2']]),
        (bytes ['a', ':', '8', '0'], [bytes ['b', 'a', 'c', 'k', 'u', 'p']])] [] 2
      [⟨none, 0, bytes ['b'], [], 1, 0, true⟩] = .ok [block_upstream] := rfl
  have hagain : upstream_add one_server_core (bytes ['b']) 0 [] 3 [block_upstream] =
      .ok (0, [block_upstream]) := rfl
  exact ((Configures.init.proxy_pass hadd).upstream hblock).proxy_pass hagain

theorem configuration_sound_of_forward_reference :
    ∃ us, upstream_init_main_conf one_server_core [block_upstream] = .ok [us] ∧ us.Configured ∧
      us.Weighted ∧ find_upstream [block_upstream] ⟨bytes ['b'], 0, true, 0, false⟩ = some 0 := by
  obtain ⟨hpasses, -, hpeers⟩ :=
    configuration_sound one_server_core_documented configures_block_upstream rfl
  obtain ⟨u, us, hu, hfound, hus, -⟩ := hpasses (bytes ['b']) 0 (List.mem_cons_self ..)
  obtain ⟨hconfigured, hweighted⟩ := hpeers us (List.mem_of_getElem? hus)
  cases hus
  cases hu
  exact ⟨_, rfl, hconfigured, hweighted, hfound⟩

end

end ngx_nsoc_upstream
