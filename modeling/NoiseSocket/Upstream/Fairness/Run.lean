import NoiseSocket.Upstream.Fairness

open Exec Exec.Result

namespace ngx_nsoc_upstream

open ngx_nsoc Smooth

/-- A change of a peer that leaves its health and its weights alone. -/
structure Harmless (f : RrPeer → RrPeer) : Prop where
  down : ∀ peer, (f peer).down = peer.down
  healthy : ∀ peer, peer.Healthy → (f peer).Healthy
  weight : ∀ peer, (f peer).weight = peer.weight
  current_weight : ∀ peer, (f peer).current_weight = peer.current_weight

theorem harmless_connect : Harmless RrPeer.connect :=
  ⟨fun _ => rfl, fun _ h => ⟨h.down, h.max_conns, h.fails, h.effective_weight⟩, fun _ => rfl,
    fun _ => rfl⟩

theorem harmless_disconnect : Harmless RrPeer.disconnect :=
  ⟨fun _ => rfl, fun _ h => ⟨h.down, h.max_conns, h.fails, h.effective_weight⟩, fun _ => rfl,
    fun _ => rfl⟩

theorem harmless_live : Harmless RrPeer.live := by
  constructor
  all_goals
    intro peer
    unfold RrPeer.live
    split_ifs
  · rfl
  · rfl
  · exact fun h => ⟨h.down, h.max_conns, rfl, h.effective_weight⟩
  · exact id
  all_goals rfl

theorem Harmless.comp {f f' : RrPeer → RrPeer} (h : Harmless f) (h' : Harmless f') :
    Harmless fun peer => f (f' peer) :=
  ⟨fun peer => (h.down _).trans (h'.down peer), fun _ hpeer => h.healthy _ (h'.healthy _ hpeer),
    fun peer => (h.weight _).trans (h'.weight peer),
    fun peer => (h.current_weight _).trans (h'.current_weight peer)⟩

section

variable {n : Nat} {w c : Fin n → Int} {peers : List RrPeer}

theorem Credits.modify (h : Credits w c peers) (p : Nat) {f : RrPeer → RrPeer} (hf : Harmless f) :
    Credits w c (peers.modify p f) := by
  have hcase : ∀ (j : Nat) (peer : RrPeer), (peers.modify p f)[j]? = some peer → ∃ old, peers[j]? = some old ∧
      peer.Healthy ∧ peer.weight = old.weight ∧ peer.current_weight = old.current_weight := by
    intro j peer hj
    rw [List.getElem?_modify] at hj
    obtain ⟨old, hold, rfl⟩ := Option.map_eq_some_iff.mp hj
    have hhealthy := h.healthy old (List.mem_of_getElem? hold)
    refine ⟨old, hold, ?_⟩
    split_ifs
    · exact ⟨hf.healthy old hhealthy, hf.weight old, hf.current_weight old⟩
    · exact ⟨hhealthy, rfl, rfl⟩
  have hlen : (peers.modify p f).length = n := by simp [h.length]
  have hget : ∀ j : Fin n, ∃ peer, (peers.modify p f)[j.val]? = some peer := fun j =>
    ⟨_, List.getElem?_eq_getElem (by rw [hlen]; exact j.isLt)⟩
  refine ⟨hlen, ?_, ?_, ?_⟩
  · intro peer hpeer
    obtain ⟨j, hj⟩ := List.mem_iff_getElem?.mp hpeer
    obtain ⟨old, -, hhealthy, -⟩ := hcase j peer hj
    exact hhealthy
  · intro j
    obtain ⟨peer, hpeer⟩ := hget j
    obtain ⟨old, hold, -, hweight, -⟩ := hcase j peer hpeer
    have hw := h.weight j
    rw [hold] at hw
    rw [hpeer, Option.map_some, hweight]
    exact hw
  · intro j
    obtain ⟨peer, hpeer⟩ := hget j
    obtain ⟨old, hold, -, -, hcurrent⟩ := hcase j peer hpeer
    have hc := h.current j
    rw [hold] at hc
    rw [hpeer, Option.map_some, hcurrent]
    exact hc

end

/-- A group of several healthy peers. -/
def Group.Balancing {n : Nat} (g : Group) (us : Upstream) (w c : Fin n → Int) : Prop :=
  ∃ peers, us.peers g = some peers ∧ peers.single = false ∧ Credits w c peers.peer

/-- New sessions are served by the group `g`: it is the primary one, or all the primary
peers are down. -/
structure Serving {n : Nat} (us : Upstream) (g : Group) (w c : Fin n → Int) : Prop where
  balancing : g.Balancing us w c
  level : ∃ most, Level most w c
  front : g = .backup → us.primary.single = false ∧ ∀ peer ∈ us.primary.peer, peer.down = true

section

variable {n : Nat} {w c : Fin n → Int} {us : Upstream} {g : Group}

/-- The selection from such a group by a session that has tried nobody of it. -/
theorem Group.Balancing.select (h : g.Balancing us w c) {most : Int} (hlevel : Level most w c) (now : Int)
    (hn : 0 < n) {pc : PeerConnection}
    (hgroup : pc.data.group = g) (hfresh : ∀ i, i < n → is_tried pc.data.tried i = ok false) :
    ∃ (p : Fin n) (us' : Upstream) (pc' : PeerConnection),
      get_group_peer now us pc = ok (true, us', pc') ∧ pc'.sockaddr = some (g, p.val) ∧
      First w c p ∧ g.Balancing us' w (pay w c p) ∧ ∀ g', g' ≠ g → us'.peers g' = us.peers g' := by
  obtain ⟨peers, hpeers, hsingle, hcredits⟩ := h
  obtain ⟨p, tried, peer, hget, hfirst, hpay⟩ := hcredits.get_peer hlevel now hn hfresh
  subst hgroup
  have hset := Upstream.peers_setPeer hpeers peer
  have hcall : get_group_peer now us pc = ok (true,
      (us.setPeer peer pc.data.group).modify (pc.data.group, p.val) RrPeer.connect,
      { pc with
        sockaddr := some (pc.data.group, p.val)
        data := { pc.data with tried, current := some (pc.data.group, p.val) } }) := by
    simp only [get_group_peer, hpeers, hsingle, Bool.false_eq_true, if_false, hget, bind_ok]
  refine ⟨p, _, _, hcall, rfl, hfirst, ⟨_, Upstream.peers_modify hset RrPeer.connect, hsingle, ?_⟩, ?_⟩
  · exact hpay.modify p harmless_connect
  · intro g' hne
    rw [Upstream.peers_modify_of_ne hne, Upstream.peers_setPeer_of_ne hne]

/-- Nobody of a group is selected whose peers are all down. -/
theorem get_peer_loop_down (now : Int) {tried : List Nat} {i : Nat} (best : Option Best) (total : Int)
    {peers : List RrPeer} (hdown : ∀ peer ∈ peers, peer.down = true)
    (hfresh : ∀ k, k < peers.length → is_tried tried (i + k) = ok false) :
    get_peer_loop now tried i best total peers = ok (best, total, peers) := by
  induction peers generalizing i with
  | nil => rfl
  | cons peer peers ih =>
    have hskip : peer.unavailable now = true := by
      simp [RrPeer.unavailable, hdown peer List.mem_cons_self]
    have hbit : is_tried tried i = ok false := hfresh 0 (Nat.succ_pos _)
    have hrest := ih (i := i + 1) (fun p hp => hdown p (List.mem_cons_of_mem _ hp)) (by
      intro k hk
      have hf := hfresh (k + 1) (Nat.succ_lt_succ hk)
      rwa [show i + (k + 1) = i + 1 + k by omega] at hf)
    simp only [get_peer_loop, hbit, hskip, bind_ok, or_true, if_true, hrest]

/-- A new session has tried nobody. -/
theorem fresh_init_round_robin_peer (us : Upstream) (i : Nat)
    (hi : i < max us.primary.number ((us.backup.map RrPeers.number).getD 0)) :
    is_tried (init_round_robin_peer us).data.tried i = ok false := by
  apply is_tried_of_zero
  unfold init_round_robin_peer
  dsimp only
  split_ifs with hsmall
  · have hword : i / 64 = 0 := by omega
    rw [hword]
    rfl
  · rw [List.getElem?_replicate, if_pos (by unfold words; omega)]

/-- The primary peers of such a session, when they are all down. -/
theorem get_group_peer_down {pc : PeerConnection} (now : Int) (hgroup : pc.data.group = .primary)
    (hsingle : us.primary.single = false) (hdown : ∀ peer ∈ us.primary.peer, peer.down = true)
    (hfresh : ∀ i, i < us.primary.number → is_tried pc.data.tried i = ok false) :
    get_group_peer now us pc = ok (false, us, pc) := by
  have hloop := get_peer_loop_down now none 0 hdown (i := 0) (by
    intro k hk
    rw [Nat.zero_add]
    exact hfresh k hk)
  have hget : get_peer now pc.data.tried us.primary.peer = ok (none, pc.data.tried, us.primary.peer) := by
    simp only [get_peer, hloop, bind_ok]
  obtain ⟨connection, sockaddr, tries, group, current, tried⟩ := pc
  obtain rfl : group = .primary := hgroup
  simp only [get_group_peer, Upstream.peers, hsingle, Bool.false_eq_true, if_false, hget, bind_ok]
  rfl

/-- A new session gets a peer of the group that serves. -/
theorem Serving.get_round_robin_peer (h : Serving us g w c) (now : Int) (hn : 0 < n) :
    ∃ (p : Fin n) (us' : Upstream) (pc' : PeerConnection),
      get_round_robin_peer now us (init_round_robin_peer us) = ok (NGX_OK, us', pc') ∧
      pc'.sockaddr = some (g, p.val) ∧ First w c p ∧ Serving us' g w (pay w c p) ∧
      ∀ g', g' ≠ g → us'.peers g' = us.peers g' := by
  let pc : PeerConnection := { init_round_robin_peer us with connection := none }
  have hfresh := fresh_init_round_robin_peer us
  obtain ⟨peers, hpeers, -, hcredits⟩ := h.balancing
  obtain ⟨most, hlevel⟩ := h.level
  have hlen : peers.number = n := hcredits.length
  cases g with
  | primary =>
    obtain rfl : us.primary = peers := Option.some.inj hpeers
    obtain ⟨p, us', pc', hget, haddr, hfirst, hnext, hother⟩ := h.balancing.select hlevel now hn
      (show pc.data.group = .primary from rfl) fun i hi => hfresh i (by omega)
    refine ⟨p, us', pc', get_round_robin_peer_of_selected hget, haddr, hfirst,
      ⟨hnext, ⟨most, hlevel.pay hfirst⟩, ?_⟩, hother⟩
    intro hbackup
    cases hbackup
  | backup =>
    obtain ⟨hsingle, hdown⟩ := h.front rfl
    have hbackup : us.backup = some peers := hpeers
    have hprimary : get_group_peer now us pc = ok (false, us, pc) :=
      get_group_peer_down now rfl hsingle hdown fun i hi => hfresh i (by omega)
    have hwords : words peers.number ≤ pc.data.tried.length := by
      simp only [pc, init_round_robin_peer, hbackup, Option.map_some, Option.getD_some, words]
      split_ifs
      · simp only [List.length_singleton]
        omega
      · simp only [List.length_replicate]
        omega
    have hclear : clear_tried pc.data.tried (words peers.number) =
        ok (List.replicate (words peers.number) 0 ++ pc.data.tried.drop (words peers.number)) :=
      if_pos hwords
    have hcleared : ∀ i, i < n → is_tried
        (List.replicate (words peers.number) 0 ++ pc.data.tried.drop (words peers.number)) i = ok false := by
      intro i hi
      have hword : i / 64 < words peers.number := by
        unfold words
        omega
      apply is_tried_of_zero
      rw [List.getElem?_append_left (by simpa using hword), List.getElem?_replicate, if_pos hword]
    let pc' : PeerConnection := { pc with
      connection := none
      data := { pc.data with
        group := .backup
        tried := List.replicate (words peers.number) 0 ++ pc.data.tried.drop (words peers.number) } }
    obtain ⟨p, us', pc'', hget, haddr, hfirst, hnext, hother⟩ := h.balancing.select hlevel now hn
      (show pc'.data.group = .backup from rfl) hcleared
    refine ⟨p, us', pc'', get_round_robin_peer_of_next hprimary hbackup hclear hget, haddr, hfirst,
      ⟨hnext, ⟨most, hlevel.pay hfirst⟩, ?_⟩, hother⟩
    intro _
    have hsame : us'.primary = us.primary := Option.some.inj (hother .primary (by simp))
    rw [hsame]
    exact ⟨hsingle, hdown⟩

/-- A peer that is not given back as failed keeps its weights. -/
theorem Serving.free (h : Serving us g w c) (now : Int) {pc : PeerConnection} {us' : Upstream}
    {pc' : PeerConnection} (hfree : free_round_robin_peer now us pc false = ok (us', pc')) :
    Serving us' g w c ∧ ∀ g', (us'.peers g').isSome = (us.peers g').isSome := by
  have hmodify : ∃ current f, us' = us.modify current f ∧ Harmless f := by
    unfold free_round_robin_peer at hfree
    split at hfree
    · split at hfree
      · cases hfree
        exact ⟨_, _, rfl, harmless_disconnect⟩
      · cases hfree
        exact ⟨_, _, rfl, harmless_disconnect.comp harmless_live⟩
    · cases hfree
  obtain ⟨⟨g', p⟩, f, rfl, hf⟩ := hmodify
  obtain ⟨peers, hpeers, hsingle, hcredits⟩ := h.balancing
  refine ⟨⟨?_, h.level, ?_⟩, Upstream.isSome_peers_modify _ f⟩
  · by_cases hg : g = g'
    · subst hg
      exact ⟨_, Upstream.peers_modify hpeers f, hsingle, hcredits.modify p hf⟩
    · exact ⟨peers, (Upstream.peers_modify_of_ne hg f).trans hpeers, hsingle, hcredits⟩
  · intro hback
    obtain ⟨hfront, hdown⟩ := h.front hback
    cases g' with
    | primary =>
      refine ⟨hfront, ?_⟩
      intro peer hpeer
      obtain ⟨j, hj⟩ := List.mem_iff_getElem?.mp hpeer
      change (us.primary.peer.modify p f)[j]? = some peer at hj
      rw [List.getElem?_modify] at hj
      obtain ⟨old, hold, rfl⟩ := Option.map_eq_some_iff.mp hj
      have hold' := hdown old (List.mem_of_getElem? hold)
      split_ifs
      · rw [hf.down, hold']
      · exact hold'
    | backup =>
      have hsame : (us.modify (.backup, p) f).primary = us.primary :=
        Option.some.inj (Upstream.peers_modify_of_ne (show Group.primary ≠ Group.backup by simp) f)
      rw [hsame]
      exact ⟨hfront, hdown⟩

end

/-- What happens to the peers: a new session selects one, or a session gives back, without
a failure, the one it has. -/
inductive Event where
  | select (now : Int)
  | free (now : Int) (pc : PeerConnection)

/-- The events one after the other, with what was selected. -/
def run_events : List Event → Upstream → Result (List (Option (Group × Nat)) × Upstream)
  | [], us => ok ([], us)
  | .select now :: events, us => do
    let r ← get_round_robin_peer now us (init_round_robin_peer us)
    let rest ← run_events events r.2.1
    ok (r.2.2.sockaddr :: rest.1, rest.2)
  | .free now pc :: events, us => do
    let r ← free_round_robin_peer now us pc false
    run_events events r.1

/-- How many sessions there are among the events. -/
def sessions : List Event → Nat
  | [] => 0
  | .select _ :: events => sessions events + 1
  | .free _ _ :: events => sessions events

/-- A session that gives a peer back has one, of a group that exists. -/
def Event.Possible (us : Upstream) : Event → Prop
  | .select _ => True
  | .free _ pc => pc.data.current.isSome ∧ (us.peers pc.data.group).isSome

theorem Event.Possible.congr {us us' : Upstream} {event : Event} (h : event.Possible us)
    (hsame : ∀ g', (us'.peers g').isSome = (us.peers g').isSome) : event.Possible us' := by
  cases event with
  | select now => trivial
  | free now pc => exact ⟨h.1, by rw [hsame]; exact h.2⟩

/-- The selections are rounds of smooth weighted round robin. -/
theorem Serving.run {n : Nat} {w c : Fin n → Int} {us : Upstream} {g : Group} (h : Serving us g w c)
    (hn : 0 < n) {events : List Event} (hevents : ∀ event ∈ events, event.Possible us) :
    ∃ (picks : List (Fin n)) (us' : Upstream) (c' : Fin n → Int),
      run_events events us = ok (picks.map (fun p => some (g, p.val)), us') ∧
      picks.length = sessions events ∧ Rounds w c picks c' ∧ Serving us' g w c' ∧
      ∀ g', (us'.peers g').isSome = (us.peers g').isSome := by
  induction events generalizing us c with
  | nil => exact ⟨[], us, c, rfl, rfl, .nil c, h, fun _ => rfl⟩
  | cons event events ih =>
    have hrest : ∀ us' : Upstream, (∀ g', (us'.peers g').isSome = (us.peers g').isSome) →
        ∀ event ∈ events, event.Possible us' := fun us' hsame event hevent =>
      (hevents event (List.mem_cons_of_mem _ hevent)).congr hsame
    cases event with
    | select now =>
      obtain ⟨p, us', pc', hget, haddr, hfirst, hnext, hother⟩ := h.get_round_robin_peer now hn
      have hsame : ∀ g', (us'.peers g').isSome = (us.peers g').isSome := by
        intro g'
        by_cases hg : g' = g
        · subst hg
          obtain ⟨peers, hpeers, -⟩ := h.balancing
          obtain ⟨peers', hpeers', -⟩ := hnext.balancing
          rw [hpeers, hpeers']
          rfl
        · rw [hother g' hg]
      obtain ⟨picks, us'', c', hrun, hlen, hrounds, hserving, hsame'⟩ := ih hnext (hrest us' hsame)
      refine ⟨p :: picks, us'', c', ?_, ?_, .cons hfirst hrounds, hserving,
        fun g' => (hsame' g').trans (hsame g')⟩
      · simp only [run_events, hget, bind_ok, hrun, haddr, List.map_cons]
      · simp only [sessions, List.length_cons, hlen]
    | free now pc =>
      obtain ⟨hcurrent, hgroup⟩ := hevents _ List.mem_cons_self
      obtain ⟨us', pc', hfree⟩ : ∃ us' pc', free_round_robin_peer now us pc false = ok (us', pc') := by
        obtain ⟨current, hcurrent⟩ := Option.isSome_iff_exists.mp hcurrent
        obtain ⟨peers, hgroup⟩ := Option.isSome_iff_exists.mp hgroup
        simp only [free_round_robin_peer, hcurrent, hgroup]
        split
        · exact ⟨_, _, rfl⟩
        · exact ⟨_, _, rfl⟩
      obtain ⟨hnext, hsame⟩ := h.free now hfree
      obtain ⟨picks, us'', c', hrun, hlen, hrounds, hserving, hsame'⟩ := ih hnext (hrest us' hsame)
      refine ⟨picks, us'', c', ?_, hlen, hrounds, hserving, fun g' => (hsame' g').trans (hsame g')⟩
      simp only [run_events, hfree, bind_ok, hrun]

/-- The current weight of a peer. -/
def current_weight (us : Upstream) (g : Group) (p : Nat) : Option Int :=
  ((us.peers g).bind fun peers => peers.peer[p]?).map RrPeer.current_weight

theorem Group.Balancing.credits {n : Nat} {w c : Fin n → Int} {us : Upstream} {g : Group}
    (h : g.Balancing us w c) {peers : RrPeers} (hpeers : us.peers g = some peers) :
    Credits w c peers.peer := by
  obtain ⟨peers', hpeers', -, hcredits⟩ := h
  obtain rfl : peers' = peers := Option.some.inj (hpeers'.symm.trans hpeers)
  exact hcredits

theorem Group.Balancing.current_weight {n : Nat} {w c : Fin n → Int} {us : Upstream} {g : Group}
    (h : g.Balancing us w c) (j : Fin n) : current_weight us g j = some (c j) := by
  obtain ⟨peers, hpeers, -, hcredits⟩ := h
  simpa only [ngx_nsoc_upstream.current_weight, hpeers, Option.bind_some] using hcredits.current j

theorem init_round_robin_peers {servers : List Server} {us : Upstream}
    (hinit : init_round_robin servers = some us) {g : Group} {peers : RrPeers}
    (hpeers : us.peers g = some peers) (htwo : 2 ≤ peers.number) :
    peers.single = false ∧ (g = .backup → us.primary.single = false) ∧
      ∃ backup, peers.peer = server_peers backup servers := by
  unfold init_round_robin at hinit
  dsimp only at hinit
  split_ifs at hinit
  · obtain rfl := Option.some.inj hinit
    cases g with
    | primary =>
      obtain rfl := Option.some.inj hpeers
      simp only [RrPeers.number] at htwo
      refine ⟨?_, by simp, _, rfl⟩
      simp only [decide_eq_false_iff_not]
      omega
    | backup => simp [Upstream.peers] at hpeers
  · obtain rfl := Option.some.inj hinit
    cases g with
    | primary =>
      obtain rfl := Option.some.inj hpeers
      exact ⟨rfl, by simp, _, rfl⟩
    | backup =>
      obtain rfl := Option.some.inj hpeers
      exact ⟨rfl, fun _ => rfl, _, rfl⟩

/-- A new group whose peers are not down and have no limit. -/
theorem serving_init_round_robin {servers : List Server} {us : Upstream}
    (hinit : init_round_robin servers = some us) {g : Group} {peers : RrPeers}
    (hpeers : us.peers g = some peers) (htwo : 2 ≤ peers.number)
    (hgroup : ∀ peer ∈ peers.peer, 0 < peer.weight ∧ peer.down = false ∧ peer.max_conns = 0)
    (hfront : g = .backup → ∀ peer ∈ us.primary.peer, peer.down = true) {most : Int}
    (hmost : ∀ peer ∈ peers.peer, peer.weight ≤ most) (hsmall : peers.number * most < 2 ^ 63) :
    Serving us g (fun j : Fin peers.number => (peers.peer.get j).weight) 0 := by
  obtain ⟨hsingle, hprimary, backup, hnew⟩ := init_round_robin_peers hinit hpeers htwo
  have hpeer : ∀ peer ∈ peers.peer, peer.Healthy ∧ peer.current_weight = 0 := by
    intro peer hmem
    obtain ⟨-, hdown, hmax⟩ := hgroup peer hmem
    rw [hnew, server_peers, List.mem_flatMap] at hmem
    obtain ⟨server, -, hmem⟩ := hmem
    obtain rfl := List.eq_of_mem_replicate hmem
    exact ⟨⟨hdown, hmax, rfl, rfl⟩, rfl⟩
  have hlevel : Level most (fun j : Fin peers.number => (peers.peer.get j).weight) 0 := by
    have hweight : ∀ j : Fin peers.number, 0 ≤ (peers.peer.get j).weight ∧ (peers.peer.get j).weight ≤ most :=
      fun j => ⟨(hgroup _ (List.get_mem peers.peer j)).1.le, hmost _ (List.get_mem peers.peer j)⟩
    obtain ⟨hpos, hle⟩ := hweight ⟨0, by omega⟩
    exact ⟨hweight, hsmall, .zero (hpos.trans hle)⟩
  refine ⟨⟨peers, hpeers, hsingle, rfl, fun peer hmem => (hpeer peer hmem).1, ?_, ?_⟩, ⟨most, hlevel⟩,
    fun hback => ⟨hprimary hback, hfront hback⟩⟩
  · intro j
    rw [List.getElem?_eq_getElem j.isLt]
    rfl
  · intro j
    rw [List.getElem?_eq_getElem j.isLt]
    exact congrArg some (hpeer _ (List.getElem_mem j.isLt)).2

/-- Over any window of as many sessions as the weights add up to, behind any number of
earlier ones, every peer is selected as often as its weight says, and its current weight is
what it was in front of the window, which is zero for the first window. The weights are so few and so
small that no sum of them leaves the range of an `ngx_int_t`. -/
theorem round_robin_fair {servers : List Server} {us : Upstream}
    (hinit : init_round_robin servers = some us) {g : Group} {peers : RrPeers}
    (hpeers : us.peers g = some peers) (htwo : 2 ≤ peers.number)
    (hgroup : ∀ peer ∈ peers.peer, 0 < peer.weight ∧ peer.down = false ∧ peer.max_conns = 0)
    (hfront : g = .backup → ∀ peer ∈ us.primary.peer, peer.down = true) {most : Int}
    (hmost : ∀ peer ∈ peers.peer, peer.weight ≤ most) (hsmall : peers.number * most < 2 ^ 63)
    (before window : List Event)
    (hevents : ∀ event ∈ before ++ window, event.Possible us)
    (hwindow : (sessions window : Int) = (peers.peer.map RrPeer.weight).sum) :
    ∃ picks us₁ picks' us₂, run_events before us = ok (picks, us₁) ∧
      run_events window us₁ = ok (picks', us₂) ∧
      ∀ (p : Nat) (peer : RrPeer), peers.peer[p]? = some peer →
        ((picks'.count (some (g, p)) : Nat) : Int) = peer.weight ∧
        current_weight us₂ g p = current_weight us₁ g p ∧
        (sessions before = 0 → current_weight us₂ g p = some 0) := by
  have hserving := serving_init_round_robin hinit hpeers htwo hgroup hfront hmost hsmall
  have hn : 0 < peers.number := by omega
  obtain ⟨picks, us₁, c₁, hrun, hlen, hrounds, hserving₁, hsame⟩ := hserving.run hn
    fun event hmem => hevents event (List.mem_append_left _ hmem)
  obtain ⟨picks', us₂, c₂, hrun', hlen', hrounds', hserving₂, -⟩ := hserving₁.run hn
    fun event hmem => (hevents event (List.mem_append_right _ hmem)).congr hsame
  have hpos : ∀ j : Fin peers.number, 0 < (peers.peer.get j).weight := fun j =>
    (hgroup _ (List.get_mem peers.peer j)).1
  have htotal : (picks'.length : Int) = total fun j : Fin peers.number => (peers.peer.get j).weight := by
    rw [← (hserving.balancing.credits hpeers).sum, ← hwindow, hlen']
  obtain ⟨hfair, rfl⟩ := hrounds.window hrounds' hpos htotal
  refine ⟨_, us₁, _, us₂, hrun, hrun', ?_⟩
  intro p peer hpeer
  obtain ⟨hp, rfl⟩ := List.getElem?_eq_some_iff.mp hpeer
  have hinj : Function.Injective fun j : Fin peers.number => some (g, j.val) := by
    intro j j' heq
    exact Fin.ext (Prod.mk.inj (Option.some.inj heq)).2
  have hcount := List.count_map_of_injective picks' _ hinj ⟨p, hp⟩
  have hbefore := hserving₁.balancing.current_weight ⟨p, hp⟩
  have hafter := hserving₂.balancing.current_weight ⟨p, hp⟩
  refine ⟨?_, hafter.trans hbefore.symm, ?_⟩
  · rw [hcount]
    exact hfair ⟨p, hp⟩
  · intro hnone
    obtain rfl : picks = [] := List.eq_nil_of_length_eq_zero (by rw [hlen, hnone])
    cases hrounds
    exact hafter

/-- Two servers of weights 2 and 1, the first of which gets back a session in between. -/
theorem round_robin_fair_two_one :
    ∃ picks us₁ picks' us₂,
      run_events [] ⟨⟨false, [Server.peer ⟨1, 2, 0, 1, 10, false, false⟩,
        Server.peer ⟨1, 1, 0, 1, 10, false, false⟩]⟩, none⟩ = ok (picks, us₁) ∧
      run_events [.select 7, .select 8,
        .free 9 ⟨none, some (.primary, 0), 1, ⟨.primary, some (.primary, 0), [1]⟩⟩, .select 9] us₁ =
          ok (picks', us₂) ∧
      picks'.count (some (.primary, 0)) = 2 ∧ picks'.count (some (.primary, 1)) = 1 ∧
      current_weight us₂ .primary 0 = some 0 ∧ current_weight us₂ .primary 1 = some 0 := by
  have hinit : init_round_robin [⟨1, 2, 0, 1, 10, false, false⟩, ⟨1, 1, 0, 1, 10, false, false⟩] =
      some ⟨⟨false, [Server.peer ⟨1, 2, 0, 1, 10, false, false⟩,
        Server.peer ⟨1, 1, 0, 1, 10, false, false⟩]⟩, none⟩ := rfl
  obtain ⟨picks, us₁, picks', us₂, hrun, hrun', hfair⟩ := round_robin_fair hinit
    (show Upstream.peers _ .primary = some _ from rfl) (by decide) (by decide) (by decide)
    (show ∀ peer ∈ _, RrPeer.weight peer ≤ 2 by decide) (by decide) []
    [.select 7, .select 8,
      .free 9 ⟨none, some (.primary, 0), 1, ⟨.primary, some (.primary, 0), [1]⟩⟩, .select 9]
    (by simp [Event.Possible, Upstream.peers]) (by decide)
  obtain ⟨hfirst, -, hzero⟩ := hfair 0 _ rfl
  obtain ⟨hsecond, -, hzero'⟩ := hfair 1 _ rfl
  exact ⟨picks, us₁, picks', us₂, hrun, hrun', Int.ofNat.inj hfirst, Int.ofNat.inj hsecond, hzero rfl,
    hzero' rfl⟩

/-- A server of the greatest weight that the directive takes. -/
def heavy_server : Server := ⟨1, 9223372036854775807, 0, 1, 10, false, false⟩

/-- Two such servers with the current weights `c₀` and `c₁`, which have `n₀` and `n₁` connections. -/
def two_heavy (c₀ c₁ : Int) (n₀ n₁ : Nat) : Upstream :=
  ⟨⟨false, [{ heavy_server.peer with current_weight := c₀, conns := n₀ },
    { heavy_server.peer with current_weight := c₁, conns := n₁ }]⟩, none⟩

section

variable {n₀ n₁ : Nat}

theorem run_events_select {us us' us'' : Upstream} {pc : PeerConnection} {code : Int} {at_ : Group × Nat}
    {events : List Event} {picks : List (Option (Group × Nat))}
    (hget : get_round_robin_peer 0 us (init_round_robin_peer us) = ok (code, us', pc))
    (haddr : pc.sockaddr = some at_) (hrest : run_events events us' = ok (picks, us'')) :
    run_events (.select 0 :: events) us = ok (some at_ :: picks, us'') := by
  simp only [run_events, hget, bind_ok, hrest, haddr]

/-- A session of two peers that has selected the one at `p`. -/
def selected_of_two (p : Nat) : PeerConnection :=
  ⟨none, some (.primary, p), 2, ⟨.primary, some (.primary, p), [1 <<< p]⟩⟩

/-- The total of both weights is `-2`: the first server is selected, and its current weight drops from
zero to the other end of the range. -/
theorem two_heavy_first :
    get_round_robin_peer 0 (two_heavy 0 0 n₀ n₁) (init_round_robin_peer (two_heavy 0 0 n₀ n₁)) =
      ok (NGX_OK, two_heavy (-9223372036854775807) 9223372036854775807 (n₀ + 1) n₁,
        selected_of_two 0) := by
  with_unfolding_all rfl

/-- From there it is selected once more. -/
theorem two_heavy_again :
    get_round_robin_peer 0 (two_heavy (-9223372036854775807) 9223372036854775807 n₀ n₁)
        (init_round_robin_peer (two_heavy (-9223372036854775807) 9223372036854775807 n₀ n₁)) =
      ok (NGX_OK, two_heavy 2 (-2) (n₀ + 1) n₁, selected_of_two 0) := by
  with_unfolding_all rfl

/-- Then the second server is selected, and the first one is again behind it. -/
theorem two_heavy_second :
    get_round_robin_peer 0 (two_heavy 2 (-2) n₀ n₁) (init_round_robin_peer (two_heavy 2 (-2) n₀ n₁)) =
      ok (NGX_OK, two_heavy (-9223372036854775807) 9223372036854775807 n₀ (n₁ + 1),
        selected_of_two 1) := by
  with_unfolding_all rfl

/-- The rounds of the two servers, behind the first selection. -/
theorem two_heavy_rounds (k : Nat) {events : List Event} {us : Upstream}
    {picks : List (Option (Group × Nat))}
    (hrest : run_events events (two_heavy (-9223372036854775807) 9223372036854775807 (n₀ + k) (n₁ + k)) =
      ok (picks, us)) :
    ∃ rounds, run_events (List.replicate (2 * k) (.select 0) ++ events)
        (two_heavy (-9223372036854775807) 9223372036854775807 n₀ n₁) = ok (rounds ++ picks, us) ∧
      rounds.count (some (.primary, 0)) = k ∧ rounds.count (some (.primary, 1)) = k := by
  induction k generalizing n₀ n₁ with
  | zero => exact ⟨[], hrest, rfl, rfl⟩
  | succ k ih =>
    have hplace : ∀ n : Nat, n + (k + 1) = n + 1 + k := by
      intro n
      omega
    rw [hplace, hplace] at hrest
    obtain ⟨rounds, hrounds, hzero, hone⟩ := ih hrest
    refine ⟨some (.primary, 0) :: some (.primary, 1) :: rounds, ?_, ?_, ?_⟩
    · exact run_events_select two_heavy_again rfl (run_events_select two_heavy_second rfl hrounds)
    · simp [hzero]
    · simp [hone]

end

/-- Of two servers of the greatest weight the first is selected once more, and the second once less,
than their weights say. -/
theorem unfair_of_two_heavy :
    init_round_robin [heavy_server, heavy_server] = some (two_heavy 0 0 0 0) ∧
    ∃ picks us, run_events (List.replicate (2 * 9223372036854775807) (.select 0)) (two_heavy 0 0 0 0) =
        ok (picks, us) ∧
      sessions (List.replicate (2 * 9223372036854775807) (.select 0)) =
        heavy_server.weight + heavy_server.weight ∧
      picks.count (some (.primary, 0)) = heavy_server.weight + 1 ∧
      picks.count (some (.primary, 1)) = heavy_server.weight - 1 ∧
      current_weight us .primary 0 = some 2 := by
  have hsessions : ∀ n, sessions (List.replicate n (.select 0)) = n := by
    intro n
    induction n with
    | zero => rfl
    | succ n ih => rw [List.replicate_succ, sessions, ih]
  have hlast : run_events [.select 0] (two_heavy (-9223372036854775807) 9223372036854775807
      (0 + 1 + 9223372036854775806) (0 + 9223372036854775806)) = _ :=
    run_events_select two_heavy_again rfl rfl
  obtain ⟨rounds, hrounds, hzero, hone⟩ := two_heavy_rounds 9223372036854775806 hlast
  have hsplit : List.replicate (2 * 9223372036854775807) (Event.select 0) = .select 0 ::
      (List.replicate (2 * 9223372036854775806) (.select 0) ++ [.select 0]) := by
    rw [← List.replicate_succ', ← List.replicate_succ]
  have hrun := run_events_select two_heavy_first rfl hrounds
  rw [← hsplit] at hrun
  refine ⟨rfl, _, _, hrun, hsessions _, ?_, ?_, rfl⟩
  · simp [hzero, heavy_server]
  · simp [hone, heavy_server]

end ngx_nsoc_upstream
