import NoiseSocket.Upstream.Selection

open Exec Exec.Result

namespace ngx_nsoc_upstream

open ngx_nsoc

/-- An upstream with the sessions that use it, each with its round-robin state. -/
structure Pool where
  us : Upstream
  sessions : List PeerConnection

/-- What a session does: it is created, it asks for a peer, it gives its peer back, failed or not,
or it reports that it is connected. -/
inductive Operation where
  | init
  | get (k : Nat)
  | free (k : Nat) (failed : Bool)
  | notify (k : Nat)
deriving DecidableEq, Repr

/-- One operation at the time `now`. -/
def Operation.apply (now : Int) (op : Operation) (pool : Pool) : Result Pool :=
  match op with
  | .init => ok { pool with sessions := pool.sessions ++ [init_round_robin_peer pool.us] }
  | .get k =>
    match pool.sessions[k]? with
    | none => fault
    | some pc => do
      let r ← get_round_robin_peer now pool.us pc
      ok ⟨r.2.1, pool.sessions.set k r.2.2⟩
  | .free k failed =>
    match pool.sessions[k]? with
    | none => fault
    | some pc => do
      let r ← free_round_robin_peer now pool.us pc failed
      ok ⟨r.1, pool.sessions.set k r.2⟩
  | .notify k =>
    match pool.sessions[k]? with
    | none => fault
    | some pc => do
      let us ← notify_round_robin_peer pool.us pc
      ok { pool with us }

/-- What an operation can change at a time `now`: a selection among the peers of a group of several,
or the counters of one peer. -/
inductive Change (now : Int) (us : Upstream) : Upstream → Prop where
  | select {g : Group} {peers : RrPeers} {tried : List Nat} {r : Option Nat × List Nat × List RrPeer}
      (hpeers : us.peers g = some peers) (hget : get_peer now tried peers.peer = ok r) :
      Change now us (us.setPeer r.2.2 g)
  | connect (at_ : Group × Nat) : Change now us (us.modify at_ RrPeer.connect)
  | disconnect (at_ : Group × Nat) : Change now us (us.modify at_ RrPeer.disconnect)
  | fail (at_ : Group × Nat) : Change now us (us.modify at_ fun peer => (peer.fail now).disconnect)
  | release (at_ : Group × Nat) : Change now us (us.modify at_ fun peer => peer.live.disconnect)
  | live (at_ : Group × Nat) : Change now us (us.modify at_ RrPeer.live)

/-- Changes one after the other. -/
inductive Changes (now : Int) (us : Upstream) : Upstream → Prop where
  | refl : Changes now us us
  | tail {us' us'' : Upstream} (h : Changes now us us') (hlast : Change now us' us'') :
      Changes now us us''

theorem Changes.trans {now : Int} {us us' us'' : Upstream} (h : Changes now us us')
    (h' : Changes now us' us'') : Changes now us us'' := by
  induction h' with
  | refl => exact h
  | tail _ hlast ih => exact ih.tail hlast

/-- A property of the peers that every change keeps. -/
theorem Changes.invariant {now : Int} {inv : Upstream → Prop}
    (hinv : ∀ us us', inv us → Change now us us' → inv us') {us us' : Upstream}
    (h : Changes now us us') (hus : inv us) : inv us' := by
  induction h with
  | refl => exact hus
  | tail _ hlast ih => exact hinv _ _ ih hlast

/-- A selection of the peer `at_` out of a group of several. -/
def Selection (now : Int) (us us' : Upstream) (at_ : Group × Nat) : Prop :=
  ∃ peers tried tried' list, us.peers at_.1 = some peers ∧
    get_peer now tried peers.peer = ok (some at_.2, tried', list) ∧
    us' = (us.setPeer list at_.1).modify at_ RrPeer.connect

section

variable {now : Int} {us us' : Upstream} {pc pc' : PeerConnection}

/-- A call for one group leaves the other group alone. What it selects out of several peers was
selected there. -/
theorem get_group_peer_cases {selected : Bool}
    (h : get_group_peer now us pc = ok (selected, us', pc')) :
    Changes now us us' ∧ (∀ g, g ≠ pc.data.group → us'.peers g = us.peers g) ∧
      pc'.data.group = pc.data.group ∧
      (selected = true → ∃ p, pc'.sockaddr = some (pc.data.group, p) ∧
        ((us.peers pc.data.group).any RrPeers.single = false →
          Selection now us us' (pc.data.group, p))) := by
  unfold get_group_peer at h
  cases hpeers : us.peers pc.data.group with
  | none =>
    rw [hpeers] at h
    cases h
  | some peers =>
    rw [hpeers] at h
    dsimp only at h
    split_ifs at h with hsingle
    · cases hlist : peers.peer with
      | nil =>
        rw [hlist] at h
        cases h
      | cons peer rest =>
        rw [hlist] at h
        dsimp only at h
        split_ifs at h <;> cases h
        · exact ⟨.refl, fun _ _ => rfl, rfl, nofun⟩
        · refine ⟨Changes.refl.tail (.connect _), fun g hg => Upstream.peers_modify_of_ne hg _, rfl,
            fun _ => ⟨0, rfl, ?_⟩⟩
          intro hno
          simp [hsingle] at hno
    · obtain ⟨⟨best, tried', list⟩, hget, hrest⟩ := bind_eq_ok_iff.mp h
      have hselect : Changes now us (us.setPeer list pc.data.group) :=
        Changes.refl.tail (.select hpeers hget)
      have hothers : ∀ g, g ≠ pc.data.group → (us.setPeer list pc.data.group).peers g = us.peers g :=
        fun g hg => Upstream.peers_setPeer_of_ne hg list
      cases best with
      | none =>
        cases hrest
        exact ⟨hselect, hothers, rfl, nofun⟩
      | some p =>
        cases hrest
        refine ⟨hselect.tail (.connect _), ?_, rfl,
          fun _ => ⟨p, rfl, fun _ => ⟨peers, _, tried', list, hpeers, hget, rfl⟩⟩⟩
        exact fun g hg => (Upstream.peers_modify_of_ne hg _).trans (hothers g hg)

/-- A session asks for a peer. What it gets out of a group of several was selected there. -/
theorem get_round_robin_peer_cases {code : Int}
    (h : get_round_robin_peer now us pc = ok (code, us', pc')) :
    Changes now us us' ∧ (code = NGX_OK → ∃ us₁ at_, us₁.peers at_.1 = us.peers at_.1 ∧
      pc'.sockaddr = some at_ ∧
      ((us.peers at_.1).any RrPeers.single = false → Selection now us₁ us' at_)) := by
  obtain ⟨⟨selected, us₁, pc₁⟩, hgroup, hrest⟩ := bind_eq_ok_iff.mp h
  obtain ⟨hchanges, hothers, hsame, hselects⟩ := get_group_peer_cases hgroup
  dsimp only at hrest
  split_ifs at hrest with hselected
  · cases hrest
    obtain ⟨p, haddr, hselection⟩ := hselects hselected
    exact ⟨hchanges, fun _ => ⟨us, _, rfl, haddr, hselection⟩⟩
  · split at hrest
    · cases hrest
      exact ⟨hchanges, fun hcode => by simp at hcode⟩
    · rename_i backup hnext
      obtain ⟨tried, -, hrest⟩ := bind_eq_ok_iff.mp hrest
      obtain ⟨⟨selected', us₂, pc₂⟩, hgroup', hrest⟩ := bind_eq_ok_iff.mp hrest
      obtain ⟨hchanges', -, -, hselects'⟩ := get_group_peer_cases hgroup'
      have hprimary : Group.backup ≠ pc.data.group := by
        intro hbackup
        rw [hsame] at hnext
        change us₁.next pc.data.group = some backup at hnext
        rw [← hbackup] at hnext
        cases hnext
      dsimp only at hrest
      split_ifs at hrest with hselected'
      · cases hrest
        obtain ⟨p, haddr, hselection⟩ := hselects' hselected'
        refine ⟨hchanges.trans hchanges', fun _ => ⟨us₁, _, hothers _ hprimary, haddr, ?_⟩⟩
        intro hmulti
        exact hselection (by rw [hothers _ hprimary]; exact hmulti)
      · cases hrest
        exact ⟨hchanges.trans hchanges', fun hcode => by simp at hcode⟩

theorem free_round_robin_peer_changes {failed : Bool}
    (h : free_round_robin_peer now us pc failed = ok (us', pc')) : Changes now us us' := by
  unfold free_round_robin_peer at h
  split at h
  · split_ifs at h <;> cases h
    · exact Changes.refl.tail (.disconnect _)
    · exact Changes.refl.tail (.fail _)
    · exact Changes.refl.tail (.release _)
  · cases h

theorem notify_round_robin_peer_changes (h : notify_round_robin_peer us pc = ok us') :
    Changes now us us' := by
  unfold notify_round_robin_peer at h
  split at h
  · cases h
  · cases h
    exact Changes.refl.tail (.live _)

end

/-- An operation is a sequence of changes. -/
theorem Operation.changes {now : Int} {op : Operation} {pool pool' : Pool}
    (h : op.apply now pool = ok pool') : Changes now pool.us pool'.us := by
  cases op with
  | init =>
    cases h
    exact .refl
  | get k =>
    simp only [Operation.apply] at h
    split at h
    · cases h
    · obtain ⟨⟨code, us, pc⟩, hget, hrest⟩ := bind_eq_ok_iff.mp h
      cases hrest
      exact (get_round_robin_peer_cases hget).1
  | free k failed =>
    simp only [Operation.apply] at h
    split at h
    · cases h
    · obtain ⟨⟨us, pc⟩, hfree, hrest⟩ := bind_eq_ok_iff.mp h
      cases hrest
      exact free_round_robin_peer_changes hfree
  | notify k =>
    simp only [Operation.apply] at h
    split at h
    · cases h
    · obtain ⟨us, hnotify, hrest⟩ := bind_eq_ok_iff.mp h
      cases hrest
      exact notify_round_robin_peer_changes hnotify

/-- Operations of any sessions, in any order, each at its own time, from the time `start` to the time
`stop`. The clock does not go back. -/
inductive Operations : Int → Pool → Int → Pool → Prop where
  | refl (now : Int) (pool : Pool) : Operations now pool now pool
  | tail {start now stop : Int} {pool pool' pool'' : Pool} (h : Operations start pool now pool')
      (op : Operation) (hclock : now ≤ stop) (hlast : op.apply stop pool' = ok pool'') :
      Operations start pool stop pool''

/-- A property of the peers that every change keeps holds behind any operations. -/
theorem Operations.invariant {inv : Upstream → Prop}
    (hinv : ∀ now us us', inv us → Change now us us' → inv us') {start stop : Int} {pool pool' : Pool}
    (h : Operations start pool stop pool') (hpool : inv pool.us) : inv pool'.us := by
  induction h with
  | refl => exact hpool
  | tail _ _ _ hlast ih => exact (Operation.changes hlast).invariant (hinv _) (ih hpool)

end ngx_nsoc_upstream
