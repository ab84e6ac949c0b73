import Mathlib.Tactic.Linarith
import NoiseSocket.Upstream.Operations.Probes

open Exec Exec.Result

namespace ngx_nsoc_upstream

open ngx_nsoc

/-- A selection for which an available peer is untried finds one. -/
theorem get_peer_finds {now : Int} {tried : List Nat} {peers : List RrPeer} {i : Nat} {peer : RrPeer}
    {r : Option Nat × List Nat × List RrPeer} (h : get_peer now tried peers = ok r)
    (hpeer : peers[i]? = some peer) (huntried : is_tried tried i = ok false)
    (havailable : peer.unavailable now = false) : ∃ q, r.1 = some q := by
  obtain ⟨advanced, total, -, ⟨best, hloop, hbest⟩, -⟩ := get_peer_cases h
  have hzero : 0 + i = i := Nat.zero_add i
  obtain ⟨-, b, rfl, -⟩ := get_peer_loop_takes hloop hpeer (by rwa [hzero]) havailable
  exact ⟨b.p, hbest⟩

/-- A peer that has been passed over `passes` times since its current weight was `start`, with
`failures` failed attempts in between: it has gained a step with each pass that found it with a
positive effective weight, and nobody is deeper in debt than `debt`. No weight is greater than `most`. -/
structure Overdue (most debt start : Int) (i passes failures : Nat) (peers : List RrPeer) : Prop where
  conserved : Conserved peers
  heaviest : ∀ peer ∈ peers, peer.weight ≤ most
  small : peers.length * most < 2 ^ 63
  low : ∀ peer ∈ peers, -debt ≤ peer.current_weight
  gains : ∃ peer, peers[i]? = some peer ∧ 1 ≤ peer.weight ∧
    (peers.map RrPeer.weight).sum ≤ peer.current_weight + debt ∧
    passes + start ≤ peer.current_weight + failures + if peer.effective_weight = 0 then 0 else 1

/-- Peers none of which is deeper in debt than `debt`. -/
theorem current_weight_sum_ge {debt : Int} {peers : List RrPeer}
    (hlow : ∀ peer ∈ peers, -debt ≤ peer.current_weight) :
    -(peers.length * debt) ≤ (peers.map RrPeer.current_weight).sum := by
  induction peers with
  | nil => simp
  | cons first rest ih =>
    have hfirst := hlow first List.mem_cons_self
    have hrest := ih fun peer hpeer => hlow peer (List.mem_cons_of_mem _ hpeer)
    rw [List.map_cons, List.sum_cons, List.length_cons]
    push_cast
    linarith

/-- One of them is only as far ahead as the others are in debt together. -/
theorem current_weight_le {debt : Int} {peers : List RrPeer} {i : Nat} {peer : RrPeer}
    (hlow : ∀ peer ∈ peers, -debt ≤ peer.current_weight) (hpeer : peers[i]? = some peer) :
    peer.current_weight ≤ (peers.map RrPeer.current_weight).sum + (peers.length - 1) * debt := by
  induction peers generalizing i with
  | nil => cases hpeer
  | cons first rest ih =>
    have hrest : ∀ peer ∈ rest, -debt ≤ peer.current_weight := fun peer hpeer =>
      hlow peer (List.mem_cons_of_mem _ hpeer)
    rw [List.map_cons, List.sum_cons, List.length_cons]
    push_cast
    cases i with
    | zero =>
      obtain rfl : first = peer := Option.some.inj hpeer
      have hothers := current_weight_sum_ge hrest
      linarith
    | succ i =>
      have hfirst := hlow first List.mem_cons_self
      have hle := ih hrest hpeer
      linarith

/-- A peer that is overdue has been passed over only so often. -/
theorem Overdue.passes_le {most debt start : Int} {i passes failures : Nat} {peers : List RrPeer}
    (h : Overdue most debt start i passes failures peers) :
    passes + start ≤ (peers.length - 1) * debt + failures + 1 := by
  obtain ⟨peer, hpeer, -, -, hgains⟩ := h.gains
  have hle := current_weight_le h.low hpeer
  rw [← sum_credits, (h.conserved.spread most h.heaviest h.small).sum] at hle
  split_ifs at hgains <;> linarith

section

variable {most debt start : Int} {i passes failures : Nat} {peers : List RrPeer}

/-- The peer is passed over once more. -/
theorem Overdue.pass (h : Overdue most debt start i passes failures peers) {now : Int} {tried : List Nat}
    {peer : RrPeer} {r : Option Nat × List Nat × List RrPeer} (hget : get_peer now tried peers = ok r)
    (hpeer : peers[i]? = some peer) (huntried : is_tried tried i = ok false)
    (havailable : peer.unavailable now = false) (hother : r.1 ≠ some i) :
    Overdue most debt start i (passes + 1) failures r.2.2 := by
  have hweights := map_weight_of_get_peer hget
  have hlength : r.2.2.length = peers.length := by
    simpa only [List.length_map] using congrArg List.length hweights
  obtain ⟨part, hround, -⟩ := h.conserved.round h.heaviest h.small hget
  have hmember : i ∈ part := (hround.part_iff i).mpr ⟨huntried, peer, hpeer, havailable⟩
  obtain ⟨q, -, hq, hle⟩ := hround.best i hmember
  obtain ⟨old, hold, hweight, hhigh, hgains⟩ := h.gains
  obtain rfl : old = peer := Option.some.inj (hold.symm.trans hpeer)
  obtain ⟨peer', hpeer', hweight', heffective⟩ := hround.peer i old hpeer
  obtain ⟨hlo, -⟩ := h.conserved.weighted old (List.mem_of_getElem? hpeer)
  have htotal := hround.total
  have hcurrent := hround.credit i
  rw [credits_of hpeer, shares_of hpeer] at hle
  rw [credits_of hpeer', credits_of hpeer, shares_of hpeer, if_pos hmember, if_neg hother] at hcurrent
  rw [if_pos hmember] at heffective
  refine ⟨h.conserved.get_peer hget, weight_le_of_map_eq hweights.symm h.heaviest, ?_, ?_, peer', hpeer', ?_, ?_, ?_⟩
  · rw [hlength]
    exact h.small
  · intro other hmem
    obtain ⟨j, hj⟩ := List.mem_iff_getElem?.mp hmem
    have hlt : j < peers.length := by
      rw [← hlength]
      exact (List.getElem?_eq_some_iff.mp hj).1
    have hbefore := List.getElem?_eq_getElem hlt
    have hlow := h.low _ (List.getElem_mem hlt)
    have hpos := (h.conserved.weighted _ (List.getElem_mem hlt)).1
    have hcredit := hround.credit j
    rw [credits_of hj, credits_of hbefore, shares_of hbefore, hq] at hcredit
    by_cases hjq : q = j
    · -- the selected peer pays no more than what it was ahead of the one that waits
      subst hjq
      rw [if_pos (hround.selected q hq), if_pos rfl] at hcredit
      rw [credits_of hbefore, shares_of hbefore] at hle
      omega
    · have hne : some q ≠ some j := fun heq => hjq (Option.some.inj heq)
      rw [if_neg hne] at hcredit
      split_ifs at hcredit <;> omega
  · rwa [hweight']
  · rw [hweights]
    omega
  · push_cast
    simp only [RrPeer.advance] at heffective
    split_ifs at hgains heffective ⊢ <;> omega

/-- A change of a peer that touches neither its weights nor, if it is the one that waits, its effective
weight. -/
theorem Overdue.modify (h : Overdue most debt start i passes failures peers) (p : Nat) {f : RrPeer → RrPeer}
    (hf : ∀ peer, peer.Weighted → (f peer).Weighted)
    (hcurrent : ∀ peer, (f peer).current_weight = peer.current_weight)
    (hweight : ∀ peer, (f peer).weight = peer.weight)
    (heffective : p = i → ∀ peer, (f peer).effective_weight = peer.effective_weight) :
    Overdue most debt start i passes failures (peers.modify p f) := by
  obtain ⟨peer, hpeer, hpos, hhigh, hgains⟩ := h.gains
  have hweights := map_modify_of_keeps RrPeer.weight hweight peers p
  refine ⟨h.conserved.modify p hf hcurrent hweight, weight_le_of_map_eq hweights.symm h.heaviest, ?_, ?_, ?_⟩
  · rw [List.length_modify]
    exact h.small
  · intro other hmem
    obtain ⟨j, hj⟩ := List.mem_iff_getElem?.mp hmem
    rw [List.getElem?_modify] at hj
    obtain ⟨before, hbefore, rfl⟩ := Option.map_eq_some_iff.mp hj
    have hlow := h.low before (List.mem_of_getElem? hbefore)
    split_ifs
    · rwa [hcurrent]
    · exact hlow
  · rw [hweights, List.getElem?_modify, hpeer]
    refine ⟨_, rfl, ?_⟩
    by_cases hp : p = i
    · simp only [if_pos hp]
      rw [hcurrent, hweight, heffective hp]
      exact ⟨hpos, hhigh, hgains⟩
    · simp only [if_neg hp]
      exact ⟨hpos, hhigh, hgains⟩

/-- An attempt that fails costs a peer at most the step that it had gained with its effective weight. -/
theorem Overdue.fail (h : Overdue most debt start i passes failures peers) (now : Int) :
    Overdue most debt start i passes (failures + 1)
      (peers.modify i fun peer => (peer.fail now).disconnect) := by
  obtain ⟨peer, hpeer, hpos, hhigh, hgains⟩ := h.gains
  have hkeeps : ∀ peer, (RrPeer.fail now peer).disconnect.weight = peer.weight := fun _ => rfl
  have hweights := map_modify_of_keeps RrPeer.weight hkeeps peers i
  refine ⟨h.conserved.modify i (fun _ hpeer => hpeer.fail now) (fun _ => rfl) hkeeps,
    weight_le_of_map_eq hweights.symm h.heaviest, ?_, ?_, ?_⟩
  · rw [List.length_modify]
    exact h.small
  · intro other hmem
    obtain ⟨j, hj⟩ := List.mem_iff_getElem?.mp hmem
    rw [List.getElem?_modify] at hj
    obtain ⟨before, hbefore, rfl⟩ := Option.map_eq_some_iff.mp hj
    have hlow := h.low before (List.mem_of_getElem? hbefore)
    split_ifs
    · exact hlow
    · exact hlow
  · rw [hweights, List.getElem?_modify, hpeer]
    refine ⟨(peer.fail now).disconnect, ?_, hpos, hhigh, ?_⟩
    · simp
    · change _ ≤ peer.current_weight + _ + _
      push_cast
      split_ifs at hgains ⊢ <;> omega

/-- A failure more changes nothing for the bound. -/
theorem Overdue.more (h : Overdue most debt start i passes failures peers) :
    Overdue most debt start i passes (failures + 1) peers := by
  obtain ⟨peer, hpeer, hpos, hhigh, hgains⟩ := h.gains
  refine ⟨h.conserved, h.heaviest, h.small, h.low, peer, hpeer, hpos, hhigh, ?_⟩
  push_cast
  omega

end

end ngx_nsoc_upstream
