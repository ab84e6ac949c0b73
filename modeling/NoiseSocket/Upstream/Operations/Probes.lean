import NoiseSocket.Upstream.Operations.Weights

open Exec Exec.Result

namespace ngx_nsoc_upstream

open ngx_nsoc

/-- A peer that has failed as often as it may. -/
def RrPeer.Disabled (peer : RrPeer) : Prop := 0 < peer.max_fails ∧ peer.max_fails ≤ peer.fails

def Upstream.Disabled (us : Upstream) (at_ : Group × Nat) : Prop :=
  ∃ peer, us.peer at_ = some peer ∧ peer.Disabled

/-- What a change at the time `now` does to a peer: its time of failure is left alone or becomes
`now`, and it does not fail more often without that. -/
structure RrPeer.Moves (now : Int) (peer peer' : RrPeer) : Prop where
  max_fails : peer'.max_fails = peer.max_fails
  fail_timeout : peer'.fail_timeout = peer.fail_timeout
  checked : peer'.checked = peer.checked ∨ peer'.checked = now
  fails : peer'.fails ≤ peer.fails ∨ peer'.checked = now

theorem RrPeer.Moves.refl (now : Int) (peer : RrPeer) : peer.Moves now peer :=
  ⟨rfl, rfl, .inl rfl, .inl (Nat.le_refl _)⟩

theorem RrPeer.Moves.trans {now : Int} {peer peer' peer'' : RrPeer} (h : peer.Moves now peer')
    (h' : peer'.Moves now peer'') : peer.Moves now peer'' := by
  refine ⟨h'.max_fails.trans h.max_fails, h'.fail_timeout.trans h.fail_timeout, ?_, ?_⟩
  · obtain hsame | hnow := h'.checked
    · rw [hsame]
      exact h.checked
    · exact .inr hnow
  · obtain hle' | hnow := h'.fails
    · obtain hle | hnow := h.fails
      · exact .inl (hle'.trans hle)
      · obtain hsame | hnow' := h'.checked
        · exact .inr (hsame.trans hnow)
        · exact .inr hnow'
    · exact .inr hnow

theorem RrPeer.moves_advance (now : Int) (peer : RrPeer) : peer.Moves now peer.advance :=
  ⟨rfl, rfl, .inl rfl, .inl (Nat.le_refl _)⟩

theorem RrPeer.moves_selected (now total : Int) (peer : RrPeer) :
    peer.Moves now (peer.selected now total) := by
  refine ⟨rfl, rfl, ?_, .inl (Nat.le_refl _)⟩
  simp only [RrPeer.selected]
  split_ifs
  · exact .inr rfl
  · exact .inl rfl

theorem RrPeer.moves_live (now : Int) (peer : RrPeer) : peer.Moves now peer.live := by
  unfold RrPeer.live
  split_ifs
  · exact ⟨rfl, rfl, .inl rfl, .inl (Nat.zero_le _)⟩
  · exact .refl now peer

/-- What a selection does to each peer of the group. -/
theorem get_peer_moves {now : Int} {tried : List Nat} {peers : List RrPeer}
    {r : Option Nat × List Nat × List RrPeer} (h : get_peer now tried peers = ok r) {i : Nat}
    {peer : RrPeer} (hpeer : peers[i]? = some peer) : ∃ peer', r.2.2[i]? = some peer' ∧
      peer.Moves now peer' := by
  obtain ⟨advanced, total, hpeers, -, hselected⟩ := get_peer_cases h
  obtain ⟨hlt, rfl⟩ := List.getElem?_eq_some_iff.mp hpeer
  have hlt' : i < advanced.length := by rwa [← hpeers.length_eq]
  have hadvanced : peers[i].Moves now advanced[i] := by
    obtain hsame | hstep := hpeers.get hlt hlt'
    · rw [List.get_eq_getElem, List.get_eq_getElem] at hsame
      rw [hsame]
      exact .refl now _
    · rw [List.get_eq_getElem, List.get_eq_getElem] at hstep
      rw [hstep]
      exact RrPeer.moves_advance now _
  obtain ⟨-, hlist, -⟩ | ⟨p, -, -, -, -, hlist⟩ := hselected
  · exact ⟨advanced[i], by rw [hlist]; exact List.getElem?_eq_getElem hlt', hadvanced⟩
  · rw [hlist, List.getElem?_modify, List.getElem?_eq_getElem hlt']
    refine ⟨_, rfl, ?_⟩
    split_ifs
    · exact hadvanced.trans (RrPeer.moves_selected now total _)
    · exact hadvanced

/-- What a change does to each peer. -/
theorem Change.moves {now : Int} {us us' : Upstream} (h : Change now us us') {at_ : Group × Nat}
    {peer : RrPeer} (hpeer : us.peer at_ = some peer) :
    ∃ peer', us'.peer at_ = some peer' ∧ peer.Moves now peer' := by
  have hmodify : ∀ (a : Group × Nat) (f : RrPeer → RrPeer), (∀ p : RrPeer, p.Moves now (f p)) →
      ∃ peer', (us.modify a f).peer at_ = some peer' ∧ peer.Moves now peer' := by
    intro a f hf
    rw [Upstream.peer_modify, hpeer]
    split_ifs
    · exact ⟨_, rfl, hf peer⟩
    · exact ⟨_, rfl, .refl now peer⟩
  cases h with
  | @select g peers tried r hpeers hget =>
    obtain ⟨g', p⟩ := at_
    by_cases hg : g' = g
    · subst hg
      rw [Upstream.peer_of_peers hpeers] at hpeer
      obtain ⟨peer', hpeer', hmoves⟩ := get_peer_moves hget hpeer
      exact ⟨peer', by rw [Upstream.peer_of_peers (Upstream.peers_setPeer hpeers _)]; exact hpeer', hmoves⟩
    · refine ⟨peer, ?_, .refl now peer⟩
      simpa only [Upstream.peer, Upstream.peers_setPeer_of_ne hg] using hpeer
  | connect a => exact hmodify a _ fun p => ⟨rfl, rfl, .inl rfl, .inl (Nat.le_refl _)⟩
  | disconnect a => exact hmodify a _ fun p => ⟨rfl, rfl, .inl rfl, .inl (Nat.le_refl _)⟩
  | fail a => exact hmodify a _ fun p => ⟨rfl, rfl, .inr rfl, .inr rfl⟩
  | release a =>
    exact hmodify a _ fun p =>
      (RrPeer.moves_live now p).trans ⟨rfl, rfl, .inl rfl, .inl (Nat.le_refl _)⟩
  | live a => exact hmodify a _ (RrPeer.moves_live now)

theorem Changes.moves {now : Int} {us us' : Upstream} (h : Changes now us us') {at_ : Group × Nat}
    {peer : RrPeer} (hpeer : us.peer at_ = some peer) :
    ∃ peer', us'.peer at_ = some peer' ∧ peer.Moves now peer' := by
  induction h with
  | refl => exact ⟨peer, hpeer, .refl now peer⟩
  | tail _ hlast ih =>
    obtain ⟨peer', hpeer', hmoves⟩ := ih
    obtain ⟨peer'', hpeer'', hmoves'⟩ := hlast.moves hpeer'
    exact ⟨peer'', hpeer'', hmoves.trans hmoves'⟩

/-- No change adds peers or takes any away. -/
theorem Change.shape {now : Int} {us us' : Upstream} (h : Change now us us') : us'.shape = us.shape := by
  cases h with
  | select hpeers hget =>
    apply Upstream.shape_setPeer hpeers
    obtain ⟨advanced, total, hadvanced, -, hselected⟩ := get_peer_cases hget
    have hlen := hadvanced.length_eq
    obtain ⟨-, hlist, -⟩ | ⟨p, -, -, -, -, hlist⟩ := hselected
    · rw [hlist]
      exact hlen.symm
    · rw [hlist, List.length_modify]
      exact hlen.symm
  | connect a => exact Upstream.shape_modify a _
  | disconnect a => exact Upstream.shape_modify a _
  | fail a => exact Upstream.shape_modify a _
  | release a => exact Upstream.shape_modify a _
  | live a => exact Upstream.shape_modify a _

theorem Changes.shape {now : Int} {us us' : Upstream} (h : Changes now us us') :
    us'.shape = us.shape := by
  induction h with
  | refl => rfl
  | tail _ hlast ih => exact hlast.shape.trans ih

theorem Upstream.single_congr {us us' : Upstream} (h : us'.shape = us.shape) (g : Group) :
    (us'.peers g).any RrPeers.single = (us.peers g).any RrPeers.single := by
  have hany : ∀ v : Upstream, (v.peers g).any RrPeers.single = (v.shape g).any Prod.fst := by
    intro v
    unfold Upstream.shape
    cases v.peers g <;> rfl
  rw [hany, hany, h]

/-- A disabled peer that is selected was last checked more than its timeout ago, and is checked
now. -/
theorem Selection.disabled {now : Int} {us us' : Upstream} {at_ : Group × Nat} {peer : RrPeer}
    (h : Selection now us us' at_) (hpeer : us.peer at_ = some peer) (hdisabled : peer.Disabled) :
    peer.checked + peer.fail_timeout < now ∧
      ∃ peer', us'.peer at_ = some peer' ∧ peer'.checked = now := by
  obtain ⟨peers, tried, tried', list, hpeers, hget, rfl⟩ := h
  obtain ⟨g, p⟩ := at_
  rw [Upstream.peer_of_peers hpeers] at hpeer
  obtain ⟨advanced, total, hadvanced, -, hselected⟩ := get_peer_cases hget
  obtain ⟨hnone, -⟩ | ⟨p', chosen, hp, hchosen, havailable, hlist⟩ := hselected
  · cases hnone
  obtain rfl : p = p' := Option.some.inj hp
  obtain rfl : peer = chosen := Option.some.inj (hpeer.symm.trans hchosen)
  have hlate : peer.checked + peer.fail_timeout < now := by
    obtain ⟨hmax, hfails⟩ := hdisabled
    simp only [RrPeer.unavailable, decide_eq_false_iff_not, not_or, not_and] at havailable
    have hcheck := havailable.2.1 (by omega) hfails
    omega
  refine ⟨hlate, ?_⟩
  obtain ⟨hlt, rfl⟩ := List.getElem?_eq_some_iff.mp hpeer
  have hlt' : p < advanced.length := by rwa [← hadvanced.length_eq]
  have hsame : advanced[p].checked = peers.peer[p].checked ∧
      advanced[p].fail_timeout = peers.peer[p].fail_timeout := by
    have hstep := hadvanced.get hlt hlt'
    rw [List.get_eq_getElem, List.get_eq_getElem] at hstep
    obtain hsame | hstep := hstep
    · rw [hsame]
      exact ⟨rfl, rfl⟩
    · rw [hstep]
      exact ⟨rfl, rfl⟩
  have hset : ((us.setPeer list g).modify (g, p) RrPeer.connect).peer (g, p) =
      some (advanced[p].selected now total).connect := by
    rw [Upstream.peer_modify, if_pos rfl, Upstream.peer_of_peers (Upstream.peers_setPeer hpeers list)]
    change list = _ at hlist
    rw [hlist, List.getElem?_modify, List.getElem?_eq_getElem hlt']
    simp
  refine ⟨_, hset, ?_⟩
  have hpassed : advanced[p].fail_timeout < now - advanced[p].checked := by
    rw [hsame.1, hsame.2]
    omega
  simp only [RrPeer.connect, RrPeer.selected, if_pos hpassed]

/-- A session asks for a peer at the time `now` and gets `at_`. -/
def Operation.Selects (at_ : Group × Nat) (now : Int) (op : Operation) (pool pool' : Pool) : Prop :=
  ∃ k pc us' pc', op = .get k ∧ pool.sessions[k]? = some pc ∧
    get_round_robin_peer now pool.us pc = ok (NGX_OK, us', pc') ∧ pc'.sockaddr = some at_ ∧
    pool' = ⟨us', pool.sessions.set k pc'⟩

/-- The selection of a disabled peer out of several. -/
theorem Operation.Selects.disabled {at_ : Group × Nat} {now : Int} {op : Operation} {pool pool' : Pool}
    {peer : RrPeer} (h : op.Selects at_ now pool pool')
    (hmulti : (pool.us.peers at_.1).any RrPeers.single = false) (hpeer : pool.us.peer at_ = some peer)
    (hdisabled : peer.Disabled) :
    peer.checked + peer.fail_timeout < now ∧
      ∃ peer', pool'.us.peer at_ = some peer' ∧ peer'.checked = now := by
  obtain ⟨k, pc, us', pc', -, -, hget, haddr, rfl⟩ := h
  obtain ⟨-, hselects⟩ := get_round_robin_peer_cases hget
  obtain ⟨us₁, a, hsame, haddr', hselection⟩ := hselects rfl
  obtain rfl : at_ = a := Option.some.inj (haddr.symm.trans haddr')
  have hpeer' : us₁.peer at_ = some peer := by
    simpa only [Upstream.peer, hsame] using hpeer
  exact (hselection hmulti).disabled hpeer' hdisabled

/-- Operations from the time `start` to the time `stop` behind each of which `at_` is disabled. -/
inductive StaysDisabled (at_ : Group × Nat) : Int → Pool → Int → Pool → Prop where
  | refl (now : Int) {pool : Pool} (hdisabled : pool.us.Disabled at_) :
      StaysDisabled at_ now pool now pool
  | tail {start now stop : Int} {pool pool' pool'' : Pool} (h : StaysDisabled at_ start pool now pool')
      (op : Operation) (hclock : now ≤ stop) (hlast : op.apply stop pool' = ok pool'')
      (hdisabled : pool''.us.Disabled at_) : StaysDisabled at_ start pool stop pool''

theorem StaysDisabled.disabled {at_ : Group × Nat} {start stop : Int} {pool pool' : Pool}
    (h : StaysDisabled at_ start pool stop pool') : pool'.us.Disabled at_ := by
  cases h with
  | refl hdisabled => exact hdisabled
  | tail _ _ _ _ hdisabled => exact hdisabled

theorem StaysDisabled.start_disabled {at_ : Group × Nat} {start stop : Int} {pool pool' : Pool}
    (h : StaysDisabled at_ start pool stop pool') : pool.us.Disabled at_ := by
  induction h with
  | refl hdisabled => exact hdisabled
  | tail _ _ _ _ _ ih => exact ih

theorem StaysDisabled.shape {at_ : Group × Nat} {start stop : Int} {pool pool' : Pool}
    (h : StaysDisabled at_ start pool stop pool') : pool'.us.shape = pool.us.shape := by
  induction h with
  | refl => rfl
  | tail _ _ _ hlast _ ih => exact (Operation.changes hlast).shape.trans ih

/-- The operation that disables a peer has checked it. -/
theorem Changes.checked_of_disabled {now : Int} {us us' : Upstream} {at_ : Group × Nat} {peer : RrPeer}
    (h : Changes now us us') (hbefore : ¬ us.Disabled at_) (hpeer : us'.peer at_ = some peer)
    (hdisabled : peer.Disabled) : peer.checked = now := by
  have hsome := Upstream.isSome_peer_congr h.shape at_
  rw [hpeer] at hsome
  obtain ⟨old, hold⟩ := Option.isSome_iff_exists.mp hsome.symm
  obtain ⟨peer', hpeer', hmoves⟩ := h.moves hold
  obtain rfl : peer = peer' := Option.some.inj (hpeer.symm.trans hpeer')
  obtain hfails | hchecked := hmoves.fails
  · obtain ⟨hpos, hmax⟩ := hdisabled
    rw [hmoves.max_fails] at hpos hmax
    exact absurd ⟨old, hold, hpos, hmax.trans hfails⟩ hbefore
  · exact hchecked

/-- A peer that was checked at the time `start` is not set back. -/
theorem StaysDisabled.checked {at_ : Group × Nat} {start stop : Int} {pool pool' : Pool}
    (h : StaysDisabled at_ start pool stop pool') {peer : RrPeer} (hpeer : pool.us.peer at_ = some peer)
    (hchecked : peer.checked = start) : start ≤ stop ∧ ∃ peer', pool'.us.peer at_ = some peer' ∧
      peer'.fail_timeout = peer.fail_timeout ∧ start ≤ peer'.checked := by
  induction h with
  | refl => exact ⟨Int.le_refl _, peer, hpeer, rfl, hchecked.ge⟩
  | tail _ _ hclock hlast _ ih =>
    obtain ⟨hle, peer', hpeer', htimeout, hchecked'⟩ := ih hpeer
    obtain ⟨peer'', hpeer'', hmoves⟩ := (Operation.changes hlast).moves hpeer'
    refine ⟨hle.trans hclock, peer'', hpeer'', hmoves.fail_timeout.trans htimeout, ?_⟩
    obtain hsame | hnow := hmoves.checked
    · rw [hsame]
      exact hchecked'
    · rw [hnow]
      exact hle.trans hclock

/-- A peer out of several is probed at most once in `fail_timeout` seconds while it is disabled: between
a selection of it while it was disabled, or the operation that has disabled it, and a later selection
of it, with no moment in between at which it is not disabled, more time than that passes. -/
theorem probes_apart {at_ : Group × Nat} {t t' t'' : Int} {op op' : Operation}
    {pool₀ pool₁ pool₂ pool₃ : Pool} {peer : RrPeer}
    (hmulti : (pool₀.us.peers at_.1).any RrPeers.single = false) (hfirst : op.apply t pool₀ = ok pool₁)
    (hprobe : op.Selects at_ t pool₀ pool₁ ∧ pool₀.us.Disabled at_ ∨ ¬ pool₀.us.Disabled at_)
    (hrun : StaysDisabled at_ t pool₁ t' pool₂)
    (hselects : op'.Selects at_ t'' pool₂ pool₃) (hpeer : pool₂.us.peer at_ = some peer) :
    t + peer.fail_timeout < t'' := by
  have hchecked : ∃ peer₁, pool₁.us.peer at_ = some peer₁ ∧ peer₁.checked = t := by
    obtain ⟨hselects, old, hold, hdisabled⟩ | hbefore := hprobe
    · exact (hselects.disabled hmulti hold hdisabled).2
    · obtain ⟨peer₁, hpeer₁, hdisabled⟩ := hrun.start_disabled
      exact ⟨peer₁, hpeer₁, (Operation.changes hfirst).checked_of_disabled hbefore hpeer₁ hdisabled⟩
  obtain ⟨peer₁, hpeer₁, hchecked⟩ := hchecked
  obtain ⟨-, peer₂, hpeer₂, -, hle⟩ := hrun.checked hpeer₁ hchecked
  obtain rfl : peer = peer₂ := Option.some.inj (hpeer.symm.trans hpeer₂)
  have hmulti₂ : (pool₂.us.peers at_.1).any RrPeers.single = false := by
    rw [Upstream.single_congr (hrun.shape.trans (Operation.changes hfirst).shape)]
    exact hmulti
  obtain ⟨peer', hpeer', hdisabled⟩ := hrun.disabled
  obtain rfl : peer = peer' := Option.some.inj (hpeer.symm.trans hpeer')
  have hlate := (hselects.disabled hmulti₂ hpeer hdisabled).1
  omega

/-- Of two servers, one of which is down, the other fails at the time 101, and the next session gets
it at the time 112. -/
theorem probes_apart_ten_seconds :
    ∃ pool₀ pool₁ pool₃ peer, Operations 100 ⟨⟨⟨false, [Server.peer ⟨1, 1, 0, 1, 10, false, false⟩,
        Server.peer ⟨1, 1, 0, 1, 10, true, false⟩]⟩, none⟩, []⟩ 100 pool₀ ∧
      (Operation.free 0 true).apply 101 pool₀ = ok pool₁ ∧
      (Operation.get 1).Selects (.primary, 0) 112 pool₁ pool₃ ∧
      pool₁.us.peer (.primary, 0) = some peer ∧ 101 + peer.fail_timeout < 112 := by
  have hrun : ∃ pool₀, Operations 100 ⟨⟨⟨false, [Server.peer ⟨1, 1, 0, 1, 10, false, false⟩,
        Server.peer ⟨1, 1, 0, 1, 10, true, false⟩]⟩, none⟩, []⟩ 100 pool₀ ∧
      (pool₀.us.peers .primary).any RrPeers.single = false ∧
      (pool₀.us.peer (.primary, 0)).map RrPeer.fails = some 0 ∧
      ∃ pool₁, (Operation.free 0 true).apply 101 pool₀ = ok pool₁ ∧
      ∃ peer, pool₁.us.peer (.primary, 0) = some peer ∧ peer.Disabled ∧
      ∃ pool₃, (Operation.get 1).Selects (.primary, 0) 112 pool₁ pool₃ := by
    refine ⟨_, (((Operations.refl 100 _).tail .init (by decide : (100 : Int) ≤ 100) rfl).tail (.get 0)
      (by decide : (100 : Int) ≤ 100) rfl).tail .init (by decide : (100 : Int) ≤ 100) rfl, by decide,
      rfl, _, rfl, _, rfl, ⟨by decide, by decide⟩, _, 1, _, _, _, rfl, rfl, rfl, rfl, rfl⟩
  obtain ⟨pool₀, hops, hmulti, hfails, pool₁, hfree, peer, hpeer, hdisabled, pool₃, hselects⟩ := hrun
  have hbefore : ¬ pool₀.us.Disabled (.primary, 0) := by
    rintro ⟨old, hold, hpos, hmax⟩
    rw [hold] at hfails
    have hzero : old.fails = 0 := Option.some.inj hfails
    omega
  exact ⟨pool₀, pool₁, pool₃, peer, hops, hfree, hselects, hpeer,
    probes_apart hmulti hfree (.inr hbefore) (.refl 101 ⟨peer, hpeer, hdisabled⟩) hselects hpeer⟩

end ngx_nsoc_upstream
