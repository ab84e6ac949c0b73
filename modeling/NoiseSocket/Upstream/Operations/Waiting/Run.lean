import NoiseSocket.Upstream.Operations.Waiting

open Exec Exec.Result

namespace ngx_nsoc_upstream

open ngx_nsoc

/-- A session that asks for a peer comes to a group: it is there already, or it finds no primary peer
and goes on to the backup group. -/
def PeerConnection.Comes (now : Int) (us : Upstream) (pc : PeerConnection) (g : Group) : Prop :=
  pc.data.group = g ∨
    g = .backup ∧ ∃ r, get_group_peer now us { pc with connection := none } = ok (false, r)

/-- A peer that a session with this state may select at the time `now`. -/
structure Upstream.Offers (us : Upstream) (now : Int) (pc : PeerConnection) (at_ : Group × Nat) :
    Prop where
  available : ∃ peer, us.peer at_ = some peer ∧ peer.unavailable now = false
  untried : pc.data.group = at_.1 → is_tried pc.data.tried at_.2 = ok false

section

variable {now : Int} {us us' : Upstream} {pc pc' : PeerConnection} {at_ : Group × Nat}

/-- A group of several that offers a peer: a selection there finds one. -/
theorem get_group_peer_offered {selected : Bool} {peers : RrPeers} {peer : RrPeer}
    (h : get_group_peer now us pc = ok (selected, us', pc')) (hpeers : us.peers pc.data.group = some peers)
    (hmulti : peers.single = false) {i : Nat} (hpeer : peers.peer[i]? = some peer)
    (havailable : peer.unavailable now = false) (huntried : is_tried pc.data.tried i = ok false) :
    selected = true ∧ ∃ r q, get_peer now pc.data.tried peers.peer = ok r ∧ r.1 = some q ∧
      us' = (us.setPeer r.2.2 pc.data.group).modify (pc.data.group, q) RrPeer.connect ∧
      pc'.sockaddr = some (pc.data.group, q) := by
  simp only [get_group_peer, hpeers, hmulti, Bool.false_eq_true, if_false] at h
  obtain ⟨r, hget, hrest⟩ := bind_eq_ok_iff.mp h
  obtain ⟨q, hq⟩ := get_peer_finds hget hpeer huntried havailable
  rw [hq] at hrest
  cases hrest
  exact ⟨rfl, r, q, hget, hq, rfl, rfl⟩

/-- A session that comes to a group of several finds a peer there if the group offers it one. -/
theorem get_round_robin_peer_offered {code : Int} {peers : RrPeers}
    (h : get_round_robin_peer now us pc = ok (code, us', pc')) (hcomes : pc.Comes now us at_.1)
    (hoffers : us.Offers now pc at_) (hpeers : us.peers at_.1 = some peers)
    (hmulti : peers.single = false) :
    ∃ tried r q, is_tried tried at_.2 = ok false ∧ get_peer now tried peers.peer = ok r ∧
      r.1 = some q ∧ pc'.sockaddr = some (at_.1, q) ∧
      us'.peers at_.1 = some { peers with peer := r.2.2.modify q RrPeer.connect } := by
  obtain ⟨g, i⟩ := at_
  obtain ⟨⟨peer, hpeer, havailable⟩, huntried⟩ := hoffers
  rw [Upstream.peer_of_peers hpeers] at hpeer
  have hfound : ∀ {us₁ : Upstream} {pc₁ : PeerConnection} {selected : Bool},
      get_group_peer now us₁ pc₁ = ok (selected, us', pc') → us₁.peers g = some peers →
      pc₁.data.group = g → is_tried pc₁.data.tried i = ok false →
      ∃ tried r q, is_tried tried i = ok false ∧ get_peer now tried peers.peer = ok r ∧
        r.1 = some q ∧ pc'.sockaddr = some (g, q) ∧
        us'.peers g = some { peers with peer := r.2.2.modify q RrPeer.connect } := by
    intro us₁ pc₁ selected hgroup hpeers₁ hsame huntried₁
    subst hsame
    obtain ⟨-, r, q, hget, hq, rfl, haddr⟩ :=
      get_group_peer_offered hgroup hpeers₁ hmulti hpeer havailable huntried₁
    exact ⟨_, r, q, huntried₁, hget, hq, haddr,
      Upstream.peers_modify (Upstream.peers_setPeer hpeers₁ r.2.2) _⟩
  obtain ⟨⟨selected, us₁, pc₁⟩, hgroup, hrest⟩ := bind_eq_ok_iff.mp h
  by_cases hsame : pc.data.group = g
  · have hpeers₁ : us.peers pc.data.group = some peers := by rwa [hsame]
    have hpeer₁ : is_tried pc.data.tried i = ok false := huntried hsame
    have hselected : selected = true :=
      (get_group_peer_offered hgroup hpeers₁ hmulti hpeer havailable hpeer₁).1
    rw [hselected, if_pos rfl] at hrest
    cases hrest
    exact hfound hgroup hpeers hsame hpeer₁
  · obtain hat | ⟨hbackup, ⟨r, hnone⟩⟩ := hcomes
    · exact absurd hat hsame
    obtain rfl : g = .backup := hbackup
    have hprimary : pc.data.group = .primary := by
      cases hcase : pc.data.group with
      | primary => rfl
      | backup => exact absurd hcase hsame
    cases hgroup.symm.trans hnone
    obtain ⟨-, hothers, hkept, -⟩ := get_group_peer_cases hgroup
    have hpeers₁ : us₁.peers .backup = some peers := (hothers _ (Ne.symm hsame)).trans hpeers
    have hnext : us₁.next pc₁.data.group = some peers := by
      rw [hkept]
      change us₁.next pc.data.group = some peers
      rw [hprimary]
      exact hpeers₁
    simp only [Bool.false_eq_true, if_false, hnext] at hrest
    obtain ⟨tried, hclear, hrest⟩ := bind_eq_ok_iff.mp hrest
    obtain ⟨⟨selected, us₂, pc₂⟩, hgroup₂, hrest⟩ := bind_eq_ok_iff.mp hrest
    obtain ⟨hlt, -⟩ := List.getElem?_eq_some_iff.mp hpeer
    have huntried₂ : is_tried tried i = ok false := by
      unfold clear_tried at hclear
      split_ifs at hclear
      cases hclear
      apply is_tried_of_zero
      have hword : i / 64 < words peers.number := by
        unfold words RrPeers.number
        omega
      rw [List.getElem?_append_left (by simpa using hword), List.getElem?_replicate, if_pos hword]
    have hend : us₂ = us' ∧ pc₂ = pc' := by
      dsimp only at hrest
      split_ifs at hrest <;> cases hrest <;> exact ⟨rfl, rfl⟩
    obtain ⟨rfl, rfl⟩ := hend
    exact hfound hgroup₂ hpeers₁ rfl huntried₂

/-- A session that does not come to a group leaves it alone. -/
theorem get_round_robin_peer_elsewhere {code : Int} {g : Group}
    (h : get_round_robin_peer now us pc = ok (code, us', pc')) (helsewhere : ¬ pc.Comes now us g) :
    us'.peers g = us.peers g := by
  obtain ⟨hnot, hfall⟩ := not_or.mp helsewhere
  obtain ⟨⟨selected, us₁, pc₁⟩, hgroup, hrest⟩ := bind_eq_ok_iff.mp h
  obtain ⟨-, hothers, hkept, -⟩ := get_group_peer_cases hgroup
  have hsame : us₁.peers g = us.peers g := hothers g (Ne.symm hnot)
  cases selected with
  | true =>
    rw [if_pos rfl] at hrest
    cases hrest
    exact hsame
  | false =>
    cases g with
    | backup => exact absurd ⟨rfl, _, hgroup⟩ hfall
    | primary =>
      have hbackup : pc₁.data.group = .backup := by
        rw [hkept]
        cases hcase : pc.data.group with
        | primary => exact absurd hcase hnot
        | backup => rfl
      simp only [Bool.false_eq_true, if_false, hbackup, Upstream.next] at hrest
      cases hrest
      exact hsame

end

/-- A session comes to the group of `at_`, which offers it this peer, and gets another one. -/
def Operation.PassesOver (at_ : Group × Nat) (now : Int) (op : Operation) (pool pool' : Pool) : Prop :=
  ∃ k pc code us' pc', op = .get k ∧ pool.sessions[k]? = some pc ∧ pc.Comes now pool.us at_.1 ∧
    pool.us.Offers now pc at_ ∧ get_round_robin_peer now pool.us pc = ok (code, us', pc') ∧
    pc'.sockaddr ≠ some at_ ∧ pool' = ⟨us', pool.sessions.set k pc'⟩

/-- A session gives `at_` back as failed. -/
def Operation.Fails (at_ : Group × Nat) (op : Operation) (pool : Pool) : Prop :=
  ∃ k pc, op = .free k true ∧ pool.sessions[k]? = some pc ∧ pc.data.current = some at_

/-- An operation that neither comes to the group of `at_` for a peer nor gives `at_` back as failed. -/
structure Operation.Passive (at_ : Group × Nat) (now : Int) (op : Operation) (pool : Pool) : Prop where
  gets : ∀ k pc, op = .get k → pool.sessions[k]? = some pc → ¬ pc.Comes now pool.us at_.1
  frees : ¬ op.Fails at_ pool

/-- Operations from the time `start` to the time `stop` in which nobody gets `at_`: how often it is
passed over, and how often it fails for those that had got it before. -/
inductive Waits (at_ : Group × Nat) : Int → Pool → Nat → Nat → Int → Pool → Prop where
  | refl (now : Int) (pool : Pool) : Waits at_ now pool 0 0 now pool
  | pass {start now stop : Int} {pool pool' pool'' : Pool} {passes failures : Nat}
      (h : Waits at_ start pool passes failures now pool') (op : Operation) (hclock : now ≤ stop)
      (hlast : op.PassesOver at_ stop pool' pool'') :
      Waits at_ start pool (passes + 1) failures stop pool''
  | fail {start now stop : Int} {pool pool' pool'' : Pool} {passes failures : Nat}
      (h : Waits at_ start pool passes failures now pool') (op : Operation) (hclock : now ≤ stop)
      (hfails : op.Fails at_ pool') (hlast : op.apply stop pool' = ok pool'') :
      Waits at_ start pool passes (failures + 1) stop pool''
  | other {start now stop : Int} {pool pool' pool'' : Pool} {passes failures : Nat}
      (h : Waits at_ start pool passes failures now pool') (op : Operation) (hclock : now ≤ stop)
      (hpassive : op.Passive at_ stop pool') (hlast : op.apply stop pool' = ok pool'') :
      Waits at_ start pool passes failures stop pool''

/-- The group of a peer that is overdue, with the number of its peers. -/
def Upstream.Overdue (most debt start : Int) (at_ : Group × Nat) (number passes failures : Nat)
    (us : Upstream) : Prop :=
  ∃ peers, us.peers at_.1 = some peers ∧ peers.single = false ∧ peers.number = number ∧
    ngx_nsoc_upstream.Overdue most debt start at_.2 passes failures peers.peer

section

variable {most debt start now : Int} {at_ : Group × Nat} {number passes failures : Nat} {op : Operation}
  {us us' : Upstream} {pool pool' : Pool}

theorem Upstream.Overdue.congr (h : us.Overdue most debt start at_ number passes failures)
    (hsame : us'.peers at_.1 = us.peers at_.1) : us'.Overdue most debt start at_ number passes failures := by
  obtain ⟨peers, hpeers, hrest⟩ := h
  exact ⟨peers, hsame.trans hpeers, hrest⟩

theorem Upstream.Overdue.modify (h : us.Overdue most debt start at_ number passes failures)
    (a : Group × Nat) {f : RrPeer → RrPeer} (hf : ∀ peer, peer.Weighted → (f peer).Weighted)
    (hcurrent : ∀ peer, (f peer).current_weight = peer.current_weight)
    (hweight : ∀ peer, (f peer).weight = peer.weight)
    (heffective : a = at_ → ∀ peer, (f peer).effective_weight = peer.effective_weight) :
    (us.modify a f).Overdue most debt start at_ number passes failures := by
  obtain ⟨g, i⟩ := at_
  obtain ⟨g', p⟩ := a
  by_cases hg : g = g'
  · subst hg
    obtain ⟨peers, hpeers, hmulti, hnumber, hoverdue⟩ := h
    refine ⟨_, Upstream.peers_modify hpeers f, hmulti, ?_,
      hoverdue.modify p hf hcurrent hweight fun hp => heffective (by rw [hp])⟩
    simpa only [RrPeers.number, List.length_modify] using hnumber
  · exact h.congr (Upstream.peers_modify_of_ne hg f)

theorem RrPeer.effective_weight_live (peer : RrPeer) :
    peer.live.effective_weight = peer.effective_weight := by
  unfold RrPeer.live
  split_ifs <;> rfl

theorem Operation.PassesOver.overdue (h : op.PassesOver at_ now pool pool')
    (hoverdue : pool.us.Overdue most debt start at_ number passes failures) :
    pool'.us.Overdue most debt start at_ number (passes + 1) failures := by
  obtain ⟨k, pc, code, us', pc', -, -, hcomes, hoffers, hget, hother, rfl⟩ := h
  obtain ⟨peers, hpeers, hmulti, hnumber, hold⟩ := hoverdue
  obtain ⟨tried, r, q, huntried, hselect, hq, haddr, hpeers'⟩ :=
    get_round_robin_peer_offered hget hcomes hoffers hpeers hmulti
  obtain ⟨peer, hpeer, havailable⟩ := hoffers.available
  obtain ⟨g, i⟩ := at_
  rw [Upstream.peer_of_peers hpeers] at hpeer
  have hpassed := hold.pass hselect hpeer huntried havailable (by
    rw [hq]
    intro hsame
    apply hother
    rw [haddr, Option.some.inj hsame])
  refine ⟨_, hpeers', hmulti, ?_, hpassed.modify q (fun _ hpeer => hpeer) (fun _ => rfl)
    (fun _ => rfl) fun _ _ => rfl⟩
  have hshape := congrArg List.length (map_weight_of_get_peer hselect)
  simp only [List.length_map] at hshape
  simpa only [RrPeers.number, List.length_modify, hshape] using hnumber

theorem Operation.Fails.overdue (h : op.Fails at_ pool) (happly : op.apply now pool = ok pool')
    (hoverdue : pool.us.Overdue most debt start at_ number passes failures) :
    pool'.us.Overdue most debt start at_ number passes (failures + 1) := by
  obtain ⟨k, pc, rfl, hpc, hcurrent⟩ := h
  simp only [Operation.apply, hpc] at happly
  obtain ⟨⟨us, pc'⟩, hfree, hrest⟩ := bind_eq_ok_iff.mp happly
  cases hrest
  obtain ⟨peers, hpeers, hmulti, hnumber, hold⟩ := hoverdue
  unfold free_round_robin_peer at hfree
  rw [hcurrent] at hfree
  split at hfree
  · rename_i current group hsome hgroup
    obtain rfl : at_ = current := Option.some.inj hsome
    split_ifs at hfree with hsingle
    · cases hfree
      have hmore : pool.us.Overdue most debt start at_ number passes (failures + 1) :=
        ⟨peers, hpeers, hmulti, hnumber, hold.more⟩
      apply hmore.modify
      · exact fun _ hpeer => hpeer
      · exact fun _ => rfl
      · exact fun _ => rfl
      · exact fun _ _ => rfl
    · cases hfree
      refine ⟨_, Upstream.peers_modify hpeers _, hmulti, ?_, hold.fail now⟩
      simpa only [RrPeers.number, List.length_modify] using hnumber
    · rename_i hnot
      exact absurd rfl hnot
  · cases hfree

theorem Operation.Passive.overdue (h : op.Passive at_ now pool) (happly : op.apply now pool = ok pool')
    (hoverdue : pool.us.Overdue most debt start at_ number passes failures) :
    pool'.us.Overdue most debt start at_ number passes failures := by
  cases op with
  | init =>
    cases happly
    exact hoverdue
  | get k =>
    simp only [Operation.apply] at happly
    split at happly
    · cases happly
    · rename_i pc hpc
      obtain ⟨⟨code, us, pc'⟩, hget, hrest⟩ := bind_eq_ok_iff.mp happly
      cases hrest
      exact hoverdue.congr (get_round_robin_peer_elsewhere hget (h.gets k pc rfl hpc))
  | free k failed =>
    simp only [Operation.apply] at happly
    split at happly
    · cases happly
    · rename_i pc hpc
      obtain ⟨⟨us, pc'⟩, hfree, hrest⟩ := bind_eq_ok_iff.mp happly
      cases hrest
      unfold free_round_robin_peer at hfree
      split at hfree
      · rename_i current group hcurrent hgroup
        split_ifs at hfree with hsingle hfailed
        · cases hfree
          apply hoverdue.modify
          · exact fun _ hpeer => hpeer
          · exact fun _ => rfl
          · exact fun _ => rfl
          · exact fun _ _ => rfl
        · cases hfree
          apply hoverdue.modify
          · exact fun _ hpeer => hpeer.fail now
          · exact fun _ => rfl
          · exact fun _ => rfl
          · rintro rfl
            exact absurd ⟨k, pc, by rw [hfailed], hpc, hcurrent⟩ h.frees
        · cases hfree
          apply hoverdue.modify
          · exact fun _ hpeer => hpeer.live
          · exact RrPeer.current_weight_live
          · exact RrPeer.weight_live
          · exact fun _ => RrPeer.effective_weight_live
      · cases hfree
  | notify k =>
    simp only [Operation.apply] at happly
    split at happly
    · cases happly
    · obtain ⟨us, hnotify, hrest⟩ := bind_eq_ok_iff.mp happly
      cases hrest
      unfold notify_round_robin_peer at hnotify
      split at hnotify
      · cases hnotify
      · cases hnotify
        apply hoverdue.modify
        · exact fun _ hpeer => hpeer.live
        · exact RrPeer.current_weight_live
        · exact RrPeer.weight_live
        · exact fun _ => RrPeer.effective_weight_live

theorem Waits.overdue {stop : Int} (h : Waits at_ now pool passes failures stop pool')
    (hoverdue : pool.us.Overdue most debt start at_ number 0 0) :
    pool'.us.Overdue most debt start at_ number passes failures := by
  induction h with
  | refl => exact hoverdue
  | pass _ _ _ hlast ih => exact hlast.overdue (ih hoverdue)
  | fail _ _ _ hfails hlast ih => exact hfails.overdue hlast (ih hoverdue)
  | other _ _ _ hpassive hlast ih => exact hpassive.overdue hlast (ih hoverdue)

end

/-- Nobody starves. While sessions, whatever they do and in whatever order, come to a group of several
peers that offers them one of these and get another one each time, this happens only so often: the
peer is passed over at most once for each step that the others can be in debt together, and once more
for each attempt with it that fails in the meantime. The weights are so small that no sum of them can
leave the range of an `ngx_int_t`. -/
theorem passes_bounded {us : Upstream} (hus : us.Configured) {before start stop : Int}
    {pool pool' : Pool} {at_ : Group × Nat} {peers : RrPeers} {peer : RrPeer} {passes failures : Nat}
    {most debt : Int} (hrun : Operations before ⟨us, []⟩ start pool)
    (hpeers : pool.us.peers at_.1 = some peers) (hmulti : peers.single = false)
    (hmost : ∀ other ∈ peers.peer, other.weight ≤ most) (hsmall : peers.number * most < 2 ^ 63)
    (hpeer : peers.peer[at_.2]? = some peer) (hweight : 1 ≤ peer.weight)
    (hlow : ∀ other ∈ peers.peer, -debt ≤ other.current_weight)
    (hdebt : (peers.peer.map RrPeer.weight).sum ≤ peer.current_weight + debt)
    (hwaits : Waits at_ start pool passes failures stop pool') :
    passes + peer.current_weight ≤ (peers.number - 1) * debt + failures + 1 := by
  have hconserved : pool.us.Conserved :=
    hrun.invariant (fun _ _ _ h hchange => h.change hchange) hus.conserved
  have hoverdue : pool.us.Overdue most debt peer.current_weight at_ peers.number 0 0 := by
    refine ⟨peers, hpeers, hmulti, rfl, hconserved _ _ hpeers, hmost, hsmall, hlow, peer, hpeer, hweight,
      hdebt, ?_⟩
    push_cast
    split_ifs <;> omega
  obtain ⟨peers', -, -, hnumber, hend⟩ := hwaits.overdue hoverdue
  have hle := hend.passes_le
  have hlength : peers'.peer.length = peers.number := hnumber
  rwa [hlength] at hle

/-- Of two servers of weights 2 and 1 the second has just been selected. Then it is passed over by a new
session, and it fails for the session that has it. -/
theorem passes_bounded_of_two :
    ∃ pool pool' peers peer, Operations 5 ⟨⟨⟨false, [Server.peer ⟨1, 2, 0, 1, 10, false, false⟩,
        Server.peer ⟨1, 1, 0, 1, 10, false, false⟩]⟩, none⟩, []⟩ 5 pool ∧
      pool.us.peers .primary = some peers ∧ peers.peer[1]? = some peer ∧
      Waits (.primary, 1) 5 pool 1 1 7 pool' ∧
      ((1 : Nat) : Int) + peer.current_weight ≤ (peers.number - 1) * 4 + (1 : Nat) + 1 := by
  have hconfigured : Upstream.Configured ⟨⟨false, [Server.peer ⟨1, 2, 0, 1, 10, false, false⟩,
      Server.peer ⟨1, 1, 0, 1, 10, false, false⟩]⟩, none⟩ :=
    .inl ⟨[⟨1, 2, 0, 1, 10, false, false⟩, ⟨1, 1, 0, 1, 10, false, false⟩], rfl⟩
  have hrun : ∃ pool, Operations 5 ⟨⟨⟨false, [Server.peer ⟨1, 2, 0, 1, 10, false, false⟩,
        Server.peer ⟨1, 1, 0, 1, 10, false, false⟩]⟩, none⟩, []⟩ 5 pool ∧
      ∃ peers, pool.us.peers .primary = some peers ∧ peers.single = false ∧
      (∀ other ∈ peers.peer, other.weight ≤ 2) ∧ peers.number = 2 ∧
      (peers.peer.map RrPeer.weight).sum = 3 ∧ peers.peer.map RrPeer.current_weight = [1, -1] ∧
      ∃ peer, peers.peer[1]? = some peer ∧ peer.weight = 1 ∧ peer.current_weight = -1 ∧
      ∃ pool', Waits (.primary, 1) 5 pool 1 1 7 pool' := by
    refine ⟨_, ((((Operations.refl 5 _).tail .init (by decide : (5 : Int) ≤ 5) rfl).tail .init
      (by decide : (5 : Int) ≤ 5) rfl).tail (.get 0) (by decide : (5 : Int) ≤ 5) rfl).tail (.get 1)
      (by decide : (5 : Int) ≤ 5) rfl, _, rfl, rfl, by decide, rfl, by decide, by decide, _, rfl, rfl, rfl, _,
      Waits.fail (Waits.pass (Waits.other (Waits.refl 5 _) .init (by decide : (5 : Int) ≤ 5) ?_ rfl)
        (.get 2) (by decide : (5 : Int) ≤ 6)
        ⟨2, _, _, _, _, rfl, rfl, .inl rfl, ⟨⟨_, rfl, by decide⟩, fun _ => rfl⟩, rfl, by decide, rfl⟩)
        (.free 1 true) (by decide : (6 : Int) ≤ 7) ⟨1, _, rfl, rfl, rfl⟩ rfl⟩
    constructor
    · intro k pc hop
      cases hop
    · rintro ⟨k, pc, hop, -⟩
      cases hop
  obtain ⟨pool, hops, peers, hpeers, hmulti, hmost, hnumber, hsum, hweights, peer, hpeer, hweight, hcurrent, pool',
    hwaits⟩ := hrun
  have hdebt : (peers.peer.map RrPeer.weight).sum ≤ peer.current_weight + 4 := by omega
  refine ⟨pool, pool', peers, peer, hops, hpeers, hpeer, hwaits, ?_⟩
  have hsmall : (peers.number : Int) * 2 < 2 ^ 63 := by
    rw [hnumber]
    decide
  apply passes_bounded hconfigured hops hpeers hmulti hmost hsmall hpeer (by omega) ?_ hdebt hwaits
  intro other hmem
  have hother := List.mem_map_of_mem (f := RrPeer.current_weight) hmem
  rw [hweights] at hother
  simp only [List.mem_cons, List.not_mem_nil, or_false] at hother
  omega

end ngx_nsoc_upstream
