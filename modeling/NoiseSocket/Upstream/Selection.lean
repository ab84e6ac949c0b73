import Mathlib.Logic.Function.Basic
import NoiseSocket.Upstream.Tried

open Exec Exec.Result

namespace ngx_nsoc_upstream

open ngx_nsoc

namespace Upstream

/-- The peer that a pointer points to. -/
def peer (us : Upstream) (at_ : Group × Nat) : Option RrPeer :=
  (us.peers at_.1).bind fun peers => peers.peer[at_.2]?

/-- The connections of a peer, with their limit. -/
def load (us : Upstream) (at_ : Group × Nat) : Option (Nat × Nat) :=
  (us.peer at_).map fun peer => (peer.conns, peer.max_conns)

/-- What no selection and no release changes: which groups there are, whether they are
single, and how many peers they have. -/
def shape (us : Upstream) (g : Group) : Option (Bool × Nat) :=
  (us.peers g).map fun peers => (peers.single, peers.number)

/-- An upstream with peers, of which only one without a backup group is single. -/
structure Ready (us : Upstream) : Prop where
  primary : 0 < us.primary.number
  single : us.primary.single = true → us.primary.number = 1 ∧ us.backup = none
  backup : ∀ peers, us.backup = some peers → peers.single = false

end Upstream

theorem ready_init_round_robin {servers : List Server} {us : Upstream}
    (h : init_round_robin servers = some us) : us.Ready := by
  simp only [init_round_robin] at h
  split at h
  · cases h
  · rename_i hprimary
    split at h
    · cases h
      refine ⟨Nat.pos_of_ne_zero hprimary, ?_, fun _ hpeers => nomatch hpeers⟩
      intro hsingle
      exact ⟨of_decide_eq_true hsingle, rfl⟩
    · cases h
      refine ⟨Nat.pos_of_ne_zero hprimary, (fun hsingle => nomatch hsingle), ?_⟩
      intro peers hpeers
      cases hpeers
      rfl

theorem ready_implicit_round_robin {naddrs : Nat} (h : 0 < naddrs) :
    (implicit_round_robin naddrs).Ready := by
  refine ⟨by simpa [implicit_round_robin, RrPeers.number] using h, ?_, fun _ hpeers => nomatch hpeers⟩
  intro hsingle
  exact ⟨by simpa [implicit_round_robin, RrPeers.number] using hsingle, rfl⟩

/-- The peers of an upstream when the configuration has been read, or its name resolved. -/
def Upstream.Configured (us : Upstream) : Prop :=
  (∃ servers, init_round_robin servers = some us) ∨
    ∃ naddrs, 0 < naddrs ∧ us = implicit_round_robin naddrs

theorem Upstream.Configured.ready {us : Upstream} (h : us.Configured) : us.Ready := by
  obtain ⟨servers, hus⟩ | ⟨naddrs, hpos, rfl⟩ := h
  · exact ready_init_round_robin hus
  · exact ready_implicit_round_robin hpos

section

variable {us us' : Upstream} {g : Group} {peers : RrPeers} {at_ : Group × Nat}

theorem Upstream.peer_of_peers (h : us.peers g = some peers) (p : Nat) :
    us.peer (g, p) = peers.peer[p]? := by
  simp [Upstream.peer, h]

theorem Upstream.shape_of_peers (h : us.peers g = some peers) :
    us.shape g = some (peers.single, peers.number) := by
  simp [Upstream.shape, h]

theorem Upstream.peers_of_shape {single : Bool} {n : Nat} (h : us.shape g = some (single, n)) :
    ∃ peers, us.peers g = some peers ∧ peers.single = single ∧ peers.number = n := by
  obtain ⟨peers, hpeers, heq⟩ := Option.map_eq_some_iff.mp h
  cases heq
  exact ⟨peers, hpeers, rfl, rfl⟩

/-- The shape says which pointers point to a peer. -/
theorem Upstream.isSome_peer_congr (h : us'.shape = us.shape) (at_ : Group × Nat) :
    (us'.peer at_).isSome = (us.peer at_).isSome := by
  have hat := congrFun h at_.1
  simp only [Upstream.shape] at hat
  cases hpeers : us.peers at_.1 with
  | none => simp_all [Upstream.peer]
  | some peers =>
    cases hpeers' : us'.peers at_.1 with
    | none => simp_all
    | some peers' =>
      simp only [hpeers, hpeers', Option.map_some, Option.some.injEq, Prod.mk.injEq] at hat
      have hlength : peers'.peer.length = peers.peer.length := hat.2
      simp only [Upstream.peer, hpeers, hpeers', Option.bind_some]
      by_cases hlt : at_.2 < peers.peer.length
      · simp [hlt, hlength]
      · simp [hlength, Nat.not_lt.mp hlt]

theorem Upstream.isSome_shape_of_peer (h : (us.peer at_).isSome = true) :
    (us.shape at_.1).isSome = true := by
  obtain ⟨peer, hpeer⟩ := Option.isSome_iff_exists.mp h
  obtain ⟨peers, hpeers, -⟩ := Option.bind_eq_some_iff.mp hpeer
  rw [Upstream.shape_of_peers hpeers]
  rfl

theorem Upstream.Ready.congr (h : us.Ready) (hshape : us'.shape = us.shape) : us'.Ready := by
  have hprimary := congrFun hshape .primary
  have hbackup := congrFun hshape .backup
  simp only [Upstream.shape, Upstream.peers, Option.map_some, Option.some.injEq, Prod.mk.injEq]
    at hprimary hbackup
  refine ⟨by rw [hprimary.2]; exact h.primary, ?_, ?_⟩
  · intro hsingle
    have hold := h.single (by rw [← hprimary.1]; exact hsingle)
    rw [hold.2] at hbackup
    exact ⟨by rw [hprimary.2]; exact hold.1, by simpa using hbackup⟩
  · intro peers hpeers
    cases hold : us.backup with
    | none => simp [hpeers, hold] at hbackup
    | some old =>
      have hfalse := h.backup old hold
      simp only [hpeers, hold, Option.map_some, Option.some.injEq, Prod.mk.injEq] at hbackup
      rw [hbackup.1]
      exact hfalse

/-- The number of peers of a group that is not empty is positive. -/
theorem Upstream.Ready.backup_of_next (h : us.Ready) (hnext : us.next g = some peers) :
    g = .primary ∧ us.backup = some peers ∧ us.primary.single = false := by
  cases g with
  | primary =>
    refine ⟨rfl, hnext, ?_⟩
    by_contra hsingle
    have hnone := (h.single (by simpa using hsingle)).2
    have hsome : us.backup = some peers := hnext
    rw [hnone] at hsome
    cases hsome
  | backup => cases hnext

theorem Upstream.shape_setPeer (h : us.peers g = some peers) {peer : List RrPeer}
    (hlength : peer.length = peers.number) : (us.setPeer peer g).shape = us.shape := by
  funext g'
  by_cases hg : g' = g
  · subst hg
    rw [Upstream.shape_of_peers (Upstream.peers_setPeer h peer), Upstream.shape_of_peers h]
    simp only [RrPeers.number] at hlength ⊢
    rw [hlength]
  · simp only [Upstream.shape, Upstream.peers_setPeer_of_ne hg]

theorem Upstream.shape_modify (at_ : Group × Nat) (f : RrPeer → RrPeer) :
    (us.modify at_ f).shape = us.shape := by
  unfold Upstream.modify
  cases hpeers : us.peers at_.1 with
  | none => rfl
  | some peers => exact Upstream.shape_setPeer hpeers (List.length_modify _ _ _)

theorem Upstream.peer_modify (at_ a : Group × Nat) (f : RrPeer → RrPeer) :
    (us.modify at_ f).peer a = if a = at_ then (us.peer a).map f else us.peer a := by
  obtain ⟨g, p⟩ := at_
  obtain ⟨g', p'⟩ := a
  by_cases hg : g' = g
  · subst hg
    cases hpeers : us.peers g' with
    | none => simp [Upstream.modify, Upstream.peer, hpeers]
    | some peers =>
      rw [Upstream.peer_of_peers (Upstream.peers_modify hpeers f), Upstream.peer_of_peers hpeers,
        List.getElem?_modify]
      by_cases hp : p' = p
      · simp [hp]
      · have hp' : ¬ p = p' := fun h => hp h.symm
        simp [hp, hp']
  · have hne : ((g', p') : Group × Nat) ≠ (g, p) := fun h => hg (congrArg Prod.fst h)
    rw [if_neg hne]
    simp only [Upstream.peer, Upstream.peers_modify_of_ne hg]

/-- A change of a peer that keeps its connections keeps all of them. -/
theorem Upstream.load_modify {f : RrPeer → RrPeer} (hconns : ∀ peer, (f peer).conns = peer.conns)
    (hmax : ∀ peer, (f peer).max_conns = peer.max_conns) : (us.modify at_ f).load = us.load := by
  funext a
  simp only [Upstream.load, Upstream.peer_modify]
  split
  · cases us.peer a <;> simp [hconns, hmax]
  · rfl

/-- A change of the connections of a peer. -/
theorem Upstream.load_modify_conns {f : RrPeer → RrPeer} {conns max_conns : Nat} (change : Nat → Nat)
    (hconns : ∀ peer, (f peer).conns = change peer.conns)
    (hmax : ∀ peer, (f peer).max_conns = peer.max_conns)
    (h : us.load at_ = some (conns, max_conns)) :
    (us.modify at_ f).load = Function.update us.load at_ (some (change conns, max_conns)) := by
  funext a
  by_cases ha : a = at_
  · subst ha
    obtain ⟨peer, hpeer, heq⟩ := Option.map_eq_some_iff.mp h
    cases heq
    simp [Upstream.load, Upstream.peer_modify, hpeer, hconns, hmax]
  · rw [Function.update_of_ne ha]
    simp only [Upstream.load, Upstream.peer_modify, if_neg ha]

end

/-- Two lists of peers with the same connections. -/
def SameLoad (peers peers' : List RrPeer) : Prop :=
  peers'.map (fun peer => (peer.conns, peer.max_conns)) =
    peers.map fun peer => (peer.conns, peer.max_conns)

theorem SameLoad.length {peers peers' : List RrPeer} (h : SameLoad peers peers') :
    peers'.length = peers.length := by
  simpa using congrArg List.length h

theorem SameLoad.load {us : Upstream} {g : Group} {peers : RrPeers} {peer : List RrPeer}
    (hpeers : us.peers g = some peers) (h : SameLoad peers.peer peer) :
    (us.setPeer peer g).load = us.load := by
  funext a
  obtain ⟨g', p⟩ := a
  by_cases hg : g' = g
  · subst hg
    have hp := congrArg (fun l => l[p]?) h
    simp only [List.getElem?_map] at hp
    simpa only [Upstream.load, Upstream.peer_of_peers (Upstream.peers_setPeer hpeers peer),
      Upstream.peer_of_peers hpeers] using hp
  · simp only [Upstream.load, Upstream.peer, Upstream.peers_setPeer_of_ne hg]

/-- A peer that the selection may take: it has not been tried, and there is room for one
more connection. -/
def Open (tried : List Nat) (i : Nat) (peer : RrPeer) : Prop :=
  marked tried i = false ∧ (peer.max_conns = 0 ∨ peer.conns < peer.max_conns)

theorem RrPeer.open_of_available {now : Int} {tried : List Nat} {i : Nat} {peer : RrPeer}
    (hmarked : marked tried i = false) (h : peer.unavailable now = false) : Open tried i peer := by
  simp only [RrPeer.unavailable, decide_eq_false_iff_not, not_or] at h
  refine ⟨hmarked, ?_⟩
  have hmax := h.2.2
  omega

/-- The loop keeps the connections, and takes an open peer or leaves the best one. -/
theorem get_peer_loop_spec (now : Int) {tried : List Nat} {i : Nat} {best : Option Best}
    {total : Int} {peers : List RrPeer} (hroom : Room tried (i + peers.length)) :
    ∃ best' total' peers', get_peer_loop now tried i best total peers = ok (best', total', peers') ∧
      SameLoad peers peers' ∧
      (best' = best ∨ ∃ k peer b, best' = some b ∧ b.p = i + k ∧ peers[k]? = some peer ∧
        Open tried (i + k) peer) := by
  induction peers generalizing i best total with
  | nil => exact ⟨best, total, [], rfl, rfl, .inl rfl⟩
  | cons peer rest ih =>
    have hskip : is_tried tried i = ok (marked tried i) := by
      apply is_tried_eq_marked
      exact hroom.lt (by simp)
    have hroom' : Room tried (i + 1 + rest.length) := by
      rwa [List.length_cons, Nat.add_comm rest.length, ← Nat.add_assoc] at hroom
    by_cases htake : marked tried i = true ∨ peer.unavailable now = true
    · obtain ⟨best', total', rest', hloop, hload, hbest⟩ := @ih _ best total hroom'
      refine ⟨best', total', peer :: rest', ?_, ?_, ?_⟩
      · simp only [get_peer_loop, hskip, bind_ok, htake, if_true, hloop]
      · simpa [SameLoad] using hload
      · obtain hbest | ⟨k, p, b, hb, hp, hk, hopen⟩ := hbest
        · exact .inl hbest
        · have hplace : i + (k + 1) = i + 1 + k := by omega
          exact .inr ⟨k + 1, p, b, hb, by omega, by simpa using hk, by rwa [hplace]⟩
    · obtain ⟨hmarked, havailable⟩ := not_or.mp htake
      have hopen : Open tried i peer :=
        RrPeer.open_of_available (by simpa using hmarked) (by simpa using havailable)
      obtain ⟨best', total', rest', hloop, hload, hbest⟩ :=
        @ih _ (Best.update best i peer.advance.current_weight)
          (Signed.int64 (total + peer.effective_weight)) hroom'
      refine ⟨best', total', peer.advance :: rest', ?_, ?_, ?_⟩
      · simp only [get_peer_loop, hskip, bind_ok, htake, if_false, hloop]
      · simpa [SameLoad, RrPeer.advance] using hload
      · obtain hbest | ⟨k, p, b, hb, hp, hk, hk'⟩ := hbest
        · have hcase : best' = best ∨ ∃ b, best' = some b ∧ b.p = i := by
            rw [hbest]
            cases best with
            | none => exact .inr ⟨_, rfl, rfl⟩
            | some b =>
              simp only [Best.update]
              split
              · exact .inr ⟨_, rfl, rfl⟩
              · exact .inl rfl
          obtain h | ⟨b, hb, hp⟩ := hcase
          · exact .inl h
          · exact .inr ⟨0, peer, b, hb, hp, rfl, hopen⟩
        · have hplace : i + (k + 1) = i + 1 + k := by omega
          exact .inr ⟨k + 1, p, b, hb, by omega, by simpa using hk, by rwa [hplace]⟩

end ngx_nsoc_upstream
