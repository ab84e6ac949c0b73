import NoiseSocket.Upstream.Selection

open Exec Exec.Result

namespace ngx_nsoc_upstream

open ngx_nsoc

/-- The bits of every group are allocated. -/
def Upstream.Fits (us : Upstream) (tried : List Nat) : Prop :=
  ∀ g single n, us.shape g = some (single, n) → Room tried n

theorem Upstream.Fits.congr {us us' : Upstream} {tried tried' : List Nat} (h : us.Fits tried)
    (hshape : us'.shape = us.shape) (hlength : tried'.length = tried.length) : us'.Fits tried' := by
  intro g single n hn
  have hroom := h g single n (by rw [← hshape]; exact hn)
  exact hroom.of_length hlength

theorem fits_init_round_robin_peer (us : Upstream) :
    us.Fits (init_round_robin_peer us).data.tried := by
  have hwords : ∀ n, n ≤ max us.primary.number ((us.backup.map RrPeers.number).getD 0) →
      Room (init_round_robin_peer us).data.tried n := by
    intro n hn
    simp only [Room, init_round_robin_peer]
    split
    · rename_i hsmall
      simp only [List.length_singleton, words]
      omega
    · rw [List.length_replicate]
      exact Nat.div_le_div_right (by omega)
  intro g single n hshape
  apply hwords
  obtain ⟨peers, hpeers, -, rfl⟩ := Upstream.peers_of_shape hshape
  cases g with
  | primary =>
    cases hpeers
    exact Nat.le_max_left _ _
  | backup =>
    have hbackup : us.backup = some peers := hpeers
    simp only [hbackup, Option.map_some, Option.getD_some]
    exact Nat.le_max_right _ _

/-- One more connection to the peer at `at_`, for which there was room. -/
structure Upstream.Connects (us us' : Upstream) (at_ : Group × Nat) : Prop where
  shape : us'.shape = us.shape
  load : ∃ conns max_conns, us.load at_ = some (conns, max_conns) ∧
    (max_conns = 0 ∨ conns < max_conns) ∧
    us'.load = Function.update us.load at_ (some (conns + 1, max_conns))

/-- Nothing but the weights and the failures of the peers has changed. -/
structure Upstream.Keeps (us us' : Upstream) : Prop where
  shape : us'.shape = us.shape
  load : us'.load = us.load

theorem Upstream.Keeps.refl (us : Upstream) : us.Keeps us := ⟨rfl, rfl⟩

theorem Upstream.Keeps.connects {us us' us'' : Upstream} {at_ : Group × Nat} (h : us.Keeps us')
    (h' : us'.Connects us'' at_) : us.Connects us'' at_ := by
  obtain ⟨hshape, hload⟩ := h'
  rw [h.load] at hload
  exact ⟨hshape.trans h.shape, hload⟩

theorem Upstream.connects_modify {us : Upstream} {at_ : Group × Nat} {peer : RrPeer}
    (hpeer : us.peer at_ = some peer) (hopen : peer.max_conns = 0 ∨ peer.conns < peer.max_conns) :
    us.Connects (us.modify at_ RrPeer.connect) at_ := by
  have hload : us.load at_ = some (peer.conns, peer.max_conns) := by simp [Upstream.load, hpeer]
  refine ⟨Upstream.shape_modify _ _, peer.conns, peer.max_conns, hload, hopen, ?_⟩
  exact Upstream.load_modify_conns (· + 1) (fun _ => rfl) (fun _ => rfl) hload

/-- A selected peer has not been tried, and its bit is set. -/
structure Marks (tried tried' : List Nat) (p : Nat) : Prop where
  untried : marked tried p = false
  marked : ∀ j, marked tried' j = (decide (j = p) || marked tried j)

/-- What a selection in the current group comes to. -/
inductive GroupPick (us : Upstream) (pc : PeerConnection) :
    Bool × Upstream × PeerConnection → Prop where
  | failed {us' : Upstream} (hkeeps : us.Keeps us') : GroupPick us pc (false, us', pc)
  | selected {us' : Upstream} {p : Nat} {tried : List Nat}
      (hconnects : us.Connects us' (pc.data.group, p))
      (hlength : tried.length = pc.data.tried.length)
      (hmarks : (∃ n, us.shape pc.data.group = some (true, n)) ∨ Marks pc.data.tried tried p) :
      GroupPick us pc (true, us', { pc with
        sockaddr := some (pc.data.group, p)
        data := ⟨pc.data.group, some (pc.data.group, p), tried⟩ })

/-- The selection among several peers. -/
theorem get_peer_spec (now : Int) {tried : List Nat} {peers : List RrPeer}
    (hroom : Room tried peers.length) :
    (∃ peers', get_peer now tried peers = ok (none, tried, peers') ∧ SameLoad peers peers') ∨
    ∃ p peer tried' peers', get_peer now tried peers = ok (some p, tried', peers') ∧
      SameLoad peers peers' ∧ peers[p]? = some peer ∧ Open tried p peer ∧
      tried'.length = tried.length ∧ ∀ j, marked tried' j = (decide (j = p) || marked tried j) := by
  have hroom' : Room tried (0 + peers.length) := by rwa [Nat.zero_add]
  obtain ⟨best, total, peers', hloop, hload, hbest⟩ :=
    @get_peer_loop_spec now _ 0 none 0 _ hroom'
  cases best with
  | none => exact .inl ⟨peers', by simp only [get_peer, hloop, bind_ok], hload⟩
  | some best =>
    obtain hnone | ⟨k, peer, b, hb, hp, hk, hopen⟩ := hbest
    · cases hnone
    · cases hb
      rw [Nat.zero_add] at hp hopen
      subst hp
      have hlt : best.p < peers.length := by
        obtain ⟨hlt, -⟩ := List.getElem?_eq_some_iff.mp hk
        exact hlt
      obtain ⟨tried', hset, hlength, hmarked⟩ := set_tried_eq (hroom.lt hlt)
      refine .inr ⟨best.p, peer, tried', peers'.modify best.p (RrPeer.selected now total), ?_, ?_,
        hk, hopen, hlength, hmarked⟩
      · simp only [get_peer, hloop, bind_ok, hset]
      · unfold SameLoad at hload ⊢
        rw [← hload]
        apply List.ext_getElem?
        intro j
        simp only [List.getElem?_map, List.getElem?_modify]
        cases peers'[j]? with
        | none => rfl
        | some p =>
          by_cases hj : best.p = j
          · simp [hj, RrPeer.selected]
          · simp [hj]

theorem get_group_peer_spec (now : Int) {us : Upstream} {pc : PeerConnection} {single : Bool}
    {n : Nat} (hshape : us.shape pc.data.group = some (single, n)) (hpos : single = true → 0 < n)
    (hroom : Room pc.data.tried n) : ∃ r, get_group_peer now us pc = ok r ∧ GroupPick us pc r := by
  obtain ⟨peers, hpeers, rfl, rfl⟩ := Upstream.peers_of_shape hshape
  by_cases hsingle : peers.single = true
  · obtain ⟨peer, rest, hlist⟩ := List.exists_cons_of_length_pos (hpos hsingle)
    by_cases hclosed : peer.down = true ∨ (peer.max_conns ≠ 0 ∧ peer.max_conns ≤ peer.conns)
    · refine ⟨_, ?_, .failed (.refl us)⟩
      simp only [get_group_peer, hpeers, hsingle, hlist, hclosed, if_true]
    · have hpeer : us.peer (pc.data.group, 0) = some peer := by
        rw [Upstream.peer_of_peers hpeers, hlist]
        rfl
      have hopen : peer.max_conns = 0 ∨ peer.conns < peer.max_conns := by
        have hroom := (not_or.mp hclosed).2
        omega
      refine ⟨_, ?_, .selected (Upstream.connects_modify hpeer hopen) rfl ?_⟩
      · simp only [get_group_peer, hpeers, hsingle, hlist, hclosed, if_true, if_false]
      · exact .inl ⟨_, by rw [hshape, hsingle]⟩
  · have hlength : ∀ {peer : List RrPeer}, SameLoad peers.peer peer → peer.length = peers.number :=
      fun h => h.length
    obtain ⟨peers', hget, hload⟩ | ⟨p, peer, tried, peers', hget, hload, hp, hopen, hlen, hmarked⟩ :=
      @get_peer_spec now _ peers.peer hroom
    · refine ⟨_, ?_, .failed ⟨Upstream.shape_setPeer hpeers (hlength hload), hload.load hpeers⟩⟩
      simp only [get_group_peer, hpeers, hsingle, hget, bind_ok]
      rfl
    · have hkeeps : us.Keeps (us.setPeer peers' pc.data.group) :=
        ⟨Upstream.shape_setPeer hpeers (hlength hload), hload.load hpeers⟩
      have hold : us.load (pc.data.group, p) = some (peer.conns, peer.max_conns) := by
        simp [Upstream.load, Upstream.peer_of_peers hpeers, hp]
      have hnew : (us.setPeer peers' pc.data.group).load (pc.data.group, p) =
          some (peer.conns, peer.max_conns) := by
        rw [hkeeps.load, hold]
      obtain ⟨peer', hpeer', heq⟩ := Option.map_eq_some_iff.mp hnew
      have hopen' : peer'.max_conns = 0 ∨ peer'.conns < peer'.max_conns := by
        simp only [Prod.mk.injEq] at heq
        rw [heq.1, heq.2]
        exact hopen.2
      refine ⟨_, ?_, .selected (hkeeps.connects (Upstream.connects_modify hpeer' hopen')) hlen
        (.inr ⟨hopen.1, hmarked⟩)⟩
      simp only [get_group_peer, hpeers, hsingle, hget, bind_ok]
      rfl

/-- What `ngx_nsoc_upstream_get_round_robin_peer` comes to. -/
inductive Pick (us : Upstream) (pc : PeerConnection) : Int × Upstream × PeerConnection → Prop where
  | busy {us' : Upstream} {data : RrPeerData} (hkeeps : us.Keeps us')
      (hgroup : (us.shape data.group).isSome = true) :
      Pick us pc (NGX_BUSY, us', { pc with connection := none, data })
  | selected {us' : Upstream} {at_ : Group × Nat} {tried : List Nat} (hconnects : us.Connects us' at_)
      (hlength : tried.length = pc.data.tried.length)
      (hmarks : at_.1 = pc.data.group →
        (∃ n, us.shape at_.1 = some (true, n)) ∨ Marks pc.data.tried tried at_.2)
      (hswitch : at_.1 ≠ pc.data.group →
        pc.data.group = .primary ∧ at_.1 = .backup ∧ us.primary.single = false ∧
          marked tried at_.2 = true) :
      Pick us pc (NGX_OK, us', { connection := none
                                 sockaddr := some at_
                                 tries := pc.tries
                                 data := ⟨at_.1, some at_, tried⟩ })

theorem get_round_robin_peer_spec (now : Int) {us : Upstream} {pc : PeerConnection} (hus : us.Ready)
    (hgroup : (us.shape pc.data.group).isSome = true) (hfits : us.Fits pc.data.tried) :
    ∃ r, get_round_robin_peer now us pc = ok r ∧ Pick us pc r := by
  obtain ⟨⟨single, n⟩, hshape⟩ := Option.isSome_iff_exists.mp hgroup
  have hpositive : ∀ {g : Group} {n : Nat}, us.shape g = some (true, n) → 0 < n := by
    intro g n hn
    obtain ⟨peers, hpeers, hsingle, rfl⟩ := Upstream.peers_of_shape hn
    cases g with
    | primary =>
      cases hpeers
      exact hus.primary
    | backup =>
      have hfalse := hus.backup peers hpeers
      rw [hsingle] at hfalse
      cases hfalse
  obtain ⟨r, hget, hpick⟩ := @get_group_peer_spec now us { pc with connection := none } _ _ hshape
    (fun hsingle => hpositive (by rw [hshape, hsingle])) (hfits _ _ _ hshape)
  cases hpick with
  | selected hconnects hlength hmarks =>
    refine ⟨_, get_round_robin_peer_of_selected hget, .selected hconnects hlength ?_ ?_⟩
    · intro _
      exact hmarks
    · intro hne
      exact absurd rfl hne
  | @failed us' hkeeps =>
    cases hnext : us'.next pc.data.group with
    | none => exact ⟨_, get_round_robin_peer_of_last hget hnext, .busy hkeeps hgroup⟩
    | some backup =>
      obtain ⟨hprimary, hbackup, hsingle⟩ := (hus.congr hkeeps.shape).backup_of_next hnext
      have hsome : us'.shape .backup = some (backup.single, backup.number) :=
        Upstream.shape_of_peers hbackup
      have hfits' : Room pc.data.tried backup.number :=
        hfits .backup backup.single _ (by rw [← hkeeps.shape, hsome])
      obtain ⟨tried, hclear, hlen, hcleared⟩ := clear_tried_eq hfits'
      have hfalse : backup.single = false := (hus.congr hkeeps.shape).backup backup hbackup
      obtain ⟨r, hget', hpick⟩ := @get_group_peer_spec now us'
        ⟨none, pc.sockaddr, pc.tries, ⟨.backup, pc.data.current, tried⟩⟩ _ _
        hsome (fun h => by rw [hfalse] at h; cases h) (hfits'.of_length hlen)
      refine ⟨_, get_round_robin_peer_of_next hget hnext hclear hget', ?_⟩
      cases hpick with
      | failed hkeeps' =>
        refine .busy ⟨hkeeps'.shape.trans hkeeps.shape, hkeeps'.load.trans hkeeps.load⟩ ?_
        rw [← hkeeps.shape, hsome]
        rfl
      | selected hconnects hlength hmarks =>
        refine .selected (hkeeps.connects hconnects) (hlength.trans hlen) ?_ ?_
        · intro heq
          rw [hprimary] at heq
          cases heq
        · intro _
          refine ⟨hprimary, rfl, ?_, ?_⟩
          · have hold := congrFun hkeeps.shape .primary
            simp only [Upstream.shape, Upstream.peers, Option.map_some, Option.some.injEq,
              Prod.mk.injEq] at hold
            rw [← hold.1, hsingle]
          · obtain ⟨n, hn⟩ | hmarks := hmarks
            · rw [hsome, hfalse] at hn
              cases hn
            · rw [hmarks.marked]
              simp

end ngx_nsoc_upstream
