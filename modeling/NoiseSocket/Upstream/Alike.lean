import NoiseSocket.Upstream.Pick

open Exec Exec.Result

namespace ngx_nsoc_upstream

open ngx_nsoc

/-- A peer for an address that the resolver has found, with the credit `c`. -/
def new_peer (c : Int) : RrPeer := { Server.peer ⟨1, 1, 0, 1, 10, false, false⟩ with current_weight := c }

/-- The first `k` peers have been tried, the others are as new and have all the credit `c`. -/
structure Front (k : Nat) (c : Int) (tried : List Nat) (peers : List RrPeer) : Prop where
  room : Room tried peers.length
  marked : ∀ j, marked tried j = decide (j < k)
  alike : peers.drop k = List.replicate (peers.length - k) (new_peer c)

theorem Room.mono {tried : List Nat} {m n : Nat} (h : Room tried n) (hle : m ≤ n) : Room tried m :=
  (Nat.div_le_div_right (by omega)).trans h

section

variable {now : Int} {tried : List Nat} {i k n : Nat} {c total : Int} {peers : List RrPeer}

/-- Peers that have been tried are passed over. -/
theorem get_peer_loop_tried {best best' : Option Best} {total' : Int} {front rest rest' : List RrPeer}
    (hroom : Room tried (i + front.length))
    (hmarked : ∀ j, j < i + front.length → marked tried j = true)
    (h : get_peer_loop now tried (i + front.length) best total rest = ok (best', total', rest')) :
    get_peer_loop now tried i best total (front ++ rest) = ok (best', total', front ++ rest') := by
  induction front generalizing i with
  | nil => exact h
  | cons peer front ih =>
    have hplace : i + 1 + front.length = i + (peer :: front).length := by
      rw [List.length_cons]
      omega
    have hlt : i < i + (peer :: front).length := by simp
    have hskip : is_tried tried i = ok true := by
      rw [is_tried_eq_marked (hroom.lt hlt), hmarked i hlt]
    have hrest := @ih (i + 1) (by rwa [hplace]) (by rwa [hplace]) (by rwa [hplace])
    simp only [List.cons_append, get_peer_loop, hskip, bind_ok, true_or, if_true, hrest]

theorem new_peer_available (now c : Int) : (new_peer c).unavailable now = false := by
  simp [RrPeer.unavailable, new_peer, Server.peer]

theorem new_peer_advance (c : Int) : (new_peer c).advance = new_peer (Signed.int64 (c + 1)) := by
  simp [RrPeer.advance, new_peer, Server.peer]

/-- Of peers that are alike none is better than the one that is the best so far. -/
theorem get_peer_loop_alike {p m : Nat} {credit : Int} (hcredit : Signed.int64 (c + 1) = credit)
    (hroom : Room tried (i + m)) (hmarked : ∀ j, i ≤ j → marked tried j = false) :
    ∃ total', get_peer_loop now tried i (some ⟨p, credit⟩) total (List.replicate m (new_peer c)) =
      ok (some ⟨p, credit⟩, total', List.replicate m (new_peer credit)) := by
  induction m generalizing i total with
  | zero => exact ⟨total, rfl⟩
  | succ m ih =>
    have hskip : is_tried tried i = ok false := by
      rw [is_tried_eq_marked (hroom.lt (by omega)), hmarked i (Nat.le_refl i)]
    have hplace : i + 1 + m = i + (m + 1) := by omega
    obtain ⟨total', hrest⟩ := @ih (i + 1) (Signed.int64 (total + (new_peer c).effective_weight))
      (by rwa [hplace]) fun j hj => hmarked j (by omega)
    have hbest : Best.update (some ⟨p, credit⟩) i (new_peer credit).current_weight = some ⟨p, credit⟩ := by
      simp [Best.update, new_peer]
    refine ⟨total', ?_⟩
    simp only [List.replicate_succ, get_peer_loop, hskip, bind_ok, new_peer_available,
      Bool.false_eq_true, or_self, if_false, new_peer_advance, hcredit, hbest, hrest]

/-- The first of the peers that have not been tried is selected. -/
theorem get_peer_of_front (now : Int) (h : Front k c tried peers) (hk : k < peers.length) :
    ∃ tried' peers', get_peer now tried peers = ok (some k, tried', peers') ∧
      tried'.length = tried.length ∧ peers'.length = peers.length ∧
      Front (k + 1) (Signed.int64 (c + 1)) tried' peers' := by
  obtain ⟨m, hm⟩ : ∃ m, peers.length - k = m + 1 := ⟨peers.length - k - 1, by omega⟩
  have hfront : (peers.take k).length = k := List.length_take_of_le hk.le
  have hsplit : peers = peers.take k ++ new_peer c :: List.replicate m (new_peer c) := by
    rw [← List.replicate_succ, ← hm, ← h.alike, List.take_append_drop]
  have hroom : Room tried (k + 1 + m) := by
    have hlength : k + 1 + m = peers.length := by omega
    rw [hlength]
    exact h.room
  have hskip : is_tried tried k = ok false := by
    rw [is_tried_eq_marked (h.room.lt hk), h.marked]
    simp
  obtain ⟨credit, hcredit⟩ : ∃ credit, Signed.int64 (c + 1) = credit := ⟨_, rfl⟩
  obtain ⟨total, halike⟩ := @get_peer_loop_alike now tried (k + 1) c
    (Signed.int64 (0 + (new_peer c).effective_weight)) k m credit hcredit hroom (by
      intro j hj
      rw [h.marked]
      exact decide_eq_false (by omega))
  have hrest : get_peer_loop now tried k none 0 (new_peer c :: List.replicate m (new_peer c)) =
      ok (some ⟨k, credit⟩, total, new_peer credit :: List.replicate m (new_peer credit)) := by
    have hbest : Best.update none k (new_peer credit).current_weight = some ⟨k, credit⟩ := rfl
    simp only [get_peer_loop, hskip, bind_ok, new_peer_available, Bool.false_eq_true, or_self, if_false,
      new_peer_advance, hcredit, hbest, halike]
  have hloop : get_peer_loop now tried 0 none 0 peers = ok (some ⟨k, credit⟩, total,
      peers.take k ++ new_peer credit :: List.replicate m (new_peer credit)) := by
    conv_lhs => rw [hsplit]
    apply get_peer_loop_tried
    · rw [Nat.zero_add, hfront]
      exact hroom.mono (by omega)
    · intro j hj
      rw [h.marked]
      exact decide_eq_true (by omega)
    · rw [Nat.zero_add, hfront]
      exact hrest
  obtain ⟨tried', hset, hlength, hmarked⟩ := set_tried_eq (h.room.lt hk)
  have hlength' : (peers.take k ++ new_peer credit :: List.replicate m (new_peer credit)).length =
      peers.length := by
    rw [List.length_append, hfront, List.length_cons, List.length_replicate]
    omega
  have hget : get_peer now tried peers = ok (some k, tried',
      (peers.take k ++ new_peer credit :: List.replicate m (new_peer credit)).modify k
        (RrPeer.selected now total)) := by
    simp only [get_peer, hloop, bind_ok, hset]
  rw [hcredit]
  refine ⟨tried', _, hget, hlength, by rw [List.length_modify, hlength'], ?_, ?_, ?_⟩
  · rw [List.length_modify, hlength']
    exact h.room.of_length hlength
  · intro j
    rw [hmarked, h.marked, ← Bool.decide_or]
    apply decide_eq_decide.mpr
    omega
  · have hdrop : (peers.take k ++ new_peer credit :: List.replicate m (new_peer credit)).drop (k + 1) =
        List.replicate m (new_peer credit) := by
      rw [List.append_cons]
      apply List.drop_left'
      rw [List.length_append, hfront]
      rfl
    have hm' : peers.length - (k + 1) = m := by omega
    rw [List.drop_modify_of_lt _ _ _ _ (Nat.lt_succ_self k), List.length_modify, hlength', hdrop, hm']

/-- What becomes of a peer that has been tried does not matter to the others. -/
theorem Front.modify (h : Front k c tried peers) {p : Nat} (hp : p < k) (f : RrPeer → RrPeer) :
    Front k c tried (peers.modify p f) where
  room := by
    rw [List.length_modify]
    exact h.room
  marked := h.marked
  alike := by
    rw [List.drop_modify_of_lt _ _ _ _ hp, List.length_modify]
    exact h.alike

end

/-- The peers of a session that has them to itself, of which it has tried the first `k`. -/
structure Own (n k : Nat) (us : Upstream) (data : RrPeerData) : Prop where
  shape : us.shape = (implicit_round_robin n).shape
  group : data.group = .primary
  room : Room data.tried n
  front : n ≠ 1 → ∃ c, Front k c data.tried us.primary.peer
  willing : n = 1 → ∀ peer ∈ us.primary.peer, peer.down = false ∧ peer.max_conns = 0

section

variable {now : Int} {n k : Nat} {us : Upstream} {data : RrPeerData}

theorem Own.peers (h : Own n k us data) :
    us.backup = none ∧ us.primary.single = decide (n = 1) ∧ us.primary.peer.length = n := by
  have hprimary := congrFun h.shape .primary
  have hbackup := congrFun h.shape .backup
  simp only [Upstream.shape, Upstream.peers, implicit_round_robin, RrPeers.number, Option.map_some,
    Option.some.injEq, Prod.mk.injEq, List.length_replicate] at hprimary
  refine ⟨?_, hprimary.1, hprimary.2⟩
  simpa [Upstream.shape, Upstream.peers, implicit_round_robin] using hbackup

theorem own_implicit_round_robin (n : Nat) :
    Own n 0 (implicit_round_robin n) (init_round_robin_peer (implicit_round_robin n)).data := by
  have hshape : (implicit_round_robin n).shape .primary = some (decide (n = 1), n) := by
    simp [Upstream.shape, Upstream.peers, implicit_round_robin, RrPeers.number]
  have hroom : Room (init_round_robin_peer (implicit_round_robin n)).data.tried n :=
    fits_init_round_robin_peer _ _ _ _ hshape
  refine ⟨rfl, rfl, hroom, ?_, ?_⟩
  · intro _
    refine ⟨0, ?_, ?_, ?_⟩
    · simpa [implicit_round_robin] using hroom
    · intro j
      simp only [init_round_robin_peer, marked]
      split
      · cases j / 64 <;> simp
      · rw [List.getElem?_replicate]
        split <;> simp
    · simp [implicit_round_robin, new_peer, Server.peer]
  · intro _ peer hpeer
    obtain rfl := List.eq_of_mem_replicate hpeer
    exact ⟨rfl, rfl⟩

/-- A peer that is done with may change, if it does not become one that refuses connections. -/
theorem Own.modify (h : Own n k us data) {p : Nat} (hp : n ≠ 1 → p < k) {f : RrPeer → RrPeer}
    (hdown : ∀ peer, (f peer).down = peer.down) (hmax : ∀ peer, (f peer).max_conns = peer.max_conns) :
    Own n k (us.modify (.primary, p) f) data := by
  refine ⟨(Upstream.shape_modify _ _).trans h.shape, h.group, h.room, ?_, ?_⟩
  · intro hn
    obtain ⟨c, hfront⟩ := h.front hn
    exact ⟨c, hfront.modify (hp hn) f⟩
  · intro hn peer hpeer
    obtain ⟨j, hj⟩ := List.mem_iff_getElem?.mp hpeer
    have hj' : (us.primary.peer.modify p f)[j]? = some peer := hj
    rw [List.getElem?_modify] at hj'
    obtain ⟨old, hold, rfl⟩ := Option.map_eq_some_iff.mp hj'
    have hwilling := h.willing hn old (List.mem_of_getElem? hold)
    split
    · exact ⟨(hdown old).trans hwilling.1, (hmax old).trans hwilling.2⟩
    · exact hwilling

/-- A session with peers of its own tries the next of them. -/
theorem Own.get {pc : PeerConnection} (h : Own n k us pc.data) (now : Int) (hk : k < n) :
    ∃ us' tried, get_round_robin_peer now us pc = ok (NGX_OK, us', { pc with
        connection := none
        sockaddr := some (.primary, k)
        data := ⟨.primary, some (.primary, k), tried⟩ }) ∧
      Own n (k + 1) us' ⟨.primary, some (.primary, k), tried⟩ := by
  obtain ⟨-, hsingle, hlength⟩ := h.peers
  have hpeers : us.peers .primary = some us.primary := rfl
  by_cases hn : n = 1
  · have hzero : k = 0 := by omega
    subst hzero
    obtain ⟨peer, rest, hlist⟩ := List.exists_cons_of_length_pos (l := us.primary.peer) (by omega)
    obtain ⟨hdown, hmax⟩ := h.willing hn peer (by rw [hlist]; exact List.mem_cons_self)
    refine ⟨us.modify (.primary, 0) RrPeer.connect, pc.data.tried,
      get_round_robin_peer_of_selected ?_, ?_⟩
    · simp [get_group_peer, h.group, hpeers, hsingle, hn, hlist, hdown, hmax]
    · have hmodify := h.modify (p := 0) (f := RrPeer.connect) (fun hne => absurd hn hne)
        (fun _ => rfl) (fun _ => rfl)
      exact ⟨hmodify.shape, rfl, h.room, fun hne => absurd hn hne, hmodify.willing⟩
  · obtain ⟨c, hfront⟩ := h.front hn
    obtain ⟨tried, peers, hget, hlen, hlen', hfront'⟩ := get_peer_of_front now hfront (by omega)
    refine ⟨(us.setPeer peers .primary).modify (.primary, k) RrPeer.connect, tried,
      get_round_robin_peer_of_selected ?_, ?_⟩
    · simp [get_group_peer, h.group, hpeers, hsingle, hn, hget]
    · have hset : Own n (k + 1) (us.setPeer peers .primary) ⟨.primary, some (.primary, k), tried⟩ :=
        ⟨(Upstream.shape_setPeer hpeers hlen').trans h.shape, rfl, h.room.of_length hlen,
          fun _ => ⟨_, hfront'⟩, fun hone => absurd hone hn⟩
      exact hset.modify (fun _ => Nat.lt_succ_self k) (fun _ => rfl) (fun _ => rfl)

end

end ngx_nsoc_upstream
