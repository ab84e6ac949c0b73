import Mathlib.Algebra.BigOperators.Group.List.Basic
import Mathlib.Algebra.Order.BigOperators.Group.List
import Mathlib.Tactic.Ring
import NoiseSocket.Lib.Spread
import NoiseSocket.Upstream.Loop
import NoiseSocket.Upstream.Operations

open Exec Exec.Result Finset

namespace ngx_nsoc_upstream

open ngx_nsoc

/-- The effective weight of a peer lies between zero and its weight. -/
def RrPeer.Weighted (peer : RrPeer) : Prop :=
  0 ≤ peer.effective_weight ∧ peer.effective_weight ≤ peer.weight

theorem RrPeer.Weighted.advance {peer : RrPeer} (h : peer.Weighted) : peer.advance.Weighted := by
  obtain ⟨hlo, hhi⟩ := h
  simp only [Weighted, RrPeer.advance]
  split_ifs <;> omega

theorem RrPeer.Weighted.fail {peer : RrPeer} (h : peer.Weighted) (now : Int) :
    (peer.fail now).Weighted := by
  obtain ⟨hlo, hhi⟩ := h
  have hpenalty : 0 ≤ peer.weight / (peer.max_fails : Int) :=
    Int.ediv_nonneg (hlo.trans hhi) (Int.natCast_nonneg _)
  simp only [Weighted, RrPeer.fail]
  split_ifs <;> omega

theorem RrPeer.Weighted.live {peer : RrPeer} (h : peer.Weighted) : peer.live.Weighted := by
  unfold RrPeer.live
  split_ifs
  · exact h
  · exact h

/-- The current weight at a place of a list of peers. -/
def credits (peers : List RrPeer) (k : Nat) : Int := (peers[k]?.map RrPeer.current_weight).getD 0

/-- What the peer at a place is given when it takes part. -/
def shares (peers : List RrPeer) (k : Nat) : Int := (peers[k]?.map RrPeer.effective_weight).getD 0

theorem credits_of {peers : List RrPeer} {k : Nat} {peer : RrPeer} (h : peers[k]? = some peer) :
    credits peers k = peer.current_weight := by
  rw [credits, h]
  rfl

theorem shares_of {peers : List RrPeer} {k : Nat} {peer : RrPeer} (h : peers[k]? = some peer) :
    shares peers k = peer.effective_weight := by
  rw [shares, h]
  rfl

theorem sum_credits (peers : List RrPeer) :
    ∑ k ∈ range peers.length, credits peers k = (peers.map RrPeer.current_weight).sum := by
  induction peers with
  | nil => rfl
  | cons peer rest ih =>
    have hrest : ∀ k, credits (peer :: rest) (k + 1) = credits rest k := fun _ => rfl
    have hpeer : credits (peer :: rest) 0 = peer.current_weight := rfl
    rw [List.length_cons, sum_range_succ']
    simp only [hrest, hpeer, ih, List.map_cons, List.sum_cons]
    omega

/-- The weights of a group: every effective weight is in its range, the current weights add up to zero
modulo the size of a word, and as long as no sum can leave the range of an `ngx_int_t` they add up to zero
and stay close together. -/
structure Conserved (peers : List RrPeer) : Prop where
  weighted : ∀ peer ∈ peers, peer.Weighted
  wrapped : (2 ^ 64 : Int) ∣ (peers.map RrPeer.current_weight).sum
  spread : ∀ most : Int, (∀ peer ∈ peers, peer.weight ≤ most) → peers.length * most < 2 ^ 63 →
    Spread (range peers.length) most (credits peers)

/-- A change of one peer that keeps a field of it keeps that field of all of them. -/
theorem map_modify_of_keeps {β : Type} (field : RrPeer → β) {f : RrPeer → RrPeer}
    (hf : ∀ peer, field (f peer) = field peer) (peers : List RrPeer) (p : Nat) :
    (peers.modify p f).map field = peers.map field := by
  apply List.ext_getElem?
  intro i
  rw [List.getElem?_map, List.getElem?_modify, List.getElem?_map]
  cases peers[i]? with
  | none => rfl
  | some peer =>
    split_ifs
    · exact congrArg some (hf peer)
    · rfl

theorem map_weight_of_advanced {peers advanced : List RrPeer}
    (h : List.Forall₂ (fun peer peer' => peer' = peer ∨ peer' = peer.advance) peers advanced) :
    advanced.map RrPeer.weight = peers.map RrPeer.weight := by
  induction h with
  | nil => rfl
  | cons hpeer _ ih =>
    rw [List.map_cons, List.map_cons, ih]
    obtain rfl | rfl := hpeer
    · rfl
    · rfl

theorem map_weight_of_get_peer {now : Int} {tried : List Nat} {peers : List RrPeer}
    {r : Option Nat × List Nat × List RrPeer} (h : get_peer now tried peers = ok r) :
    r.2.2.map RrPeer.weight = peers.map RrPeer.weight := by
  obtain ⟨advanced, total, hadvanced, -, hselected⟩ := get_peer_cases h
  have hkeeps : ∀ peer, (RrPeer.selected now total peer).weight = peer.weight := fun _ => rfl
  obtain ⟨-, hlist, -⟩ | ⟨p, -, -, -, -, hlist⟩ := hselected
  · rw [hlist, map_weight_of_advanced hadvanced]
  · rw [hlist, map_modify_of_keeps RrPeer.weight hkeeps, map_weight_of_advanced hadvanced]

/-- A bound for the weights holds of all lists with these weights. -/
theorem weight_le_of_map_eq {peers peers' : List RrPeer} {most : Int}
    (hsame : peers'.map RrPeer.weight = peers.map RrPeer.weight)
    (hmost : ∀ peer ∈ peers', peer.weight ≤ most) : ∀ peer ∈ peers, peer.weight ≤ most := by
  intro peer hpeer
  have hmem : peer.weight ∈ peers'.map RrPeer.weight := by
    rw [hsame]
    exact List.mem_map_of_mem hpeer
  obtain ⟨peer', hpeer', heq⟩ := List.mem_map.mp hmem
  rw [← heq]
  exact hmost peer' hpeer'

/-- A change of one peer that touches neither its weight nor its current weight. -/
theorem Conserved.modify {peers : List RrPeer} (h : Conserved peers) (p : Nat) {f : RrPeer → RrPeer}
    (hf : ∀ peer, peer.Weighted → (f peer).Weighted)
    (hcurrent : ∀ peer, (f peer).current_weight = peer.current_weight)
    (hweight : ∀ peer, (f peer).weight = peer.weight) : Conserved (peers.modify p f) := by
  constructor
  · intro peer hpeer
    obtain ⟨i, hi⟩ := List.mem_iff_getElem?.mp hpeer
    rw [List.getElem?_modify] at hi
    obtain ⟨old, hold, rfl⟩ := Option.map_eq_some_iff.mp hi
    have hweighted := h.weighted old (List.mem_of_getElem? hold)
    split_ifs
    · exact hf old hweighted
    · exact hweighted
  · rw [map_modify_of_keeps RrPeer.current_weight hcurrent]
    exact h.wrapped
  · intro most hmost hsmall
    have hweights := map_modify_of_keeps RrPeer.weight hweight peers p
    have hcredits := map_modify_of_keeps RrPeer.current_weight hcurrent peers p
    rw [List.length_modify] at hsmall ⊢
    refine (h.spread most (weight_le_of_map_eq hweights hmost) hsmall).congr ?_
    intro k _
    rw [credits, credits, ← List.getElem?_map, hcredits, List.getElem?_map]

section

variable {now most : Int} {tried : List Nat} {peers : List RrPeer} {part : Finset Nat}
  {r : Option Nat × List Nat × List RrPeer}

/-- Where there are few and small weights no sum of a selection leaves its range. -/
theorem Conserved.fits (h : Conserved peers) (hmost : ∀ peer ∈ peers, peer.weight ≤ most)
    (hsmall : peers.length * most < 2 ^ 63) : Fits 0 peers := by
  have hspread := h.spread most hmost hsmall
  refine ⟨?_, fun peer hpeer => (h.weighted peer hpeer).1, Int.le_refl 0, ?_⟩
  · intro peer hpeer
    obtain ⟨k, hk⟩ := List.mem_iff_getElem?.mp hpeer
    have hrange := mem_range.mpr (List.getElem?_eq_some_iff.mp hk).1
    have hlow := hspread.le_credit hrange
    have hhigh := hspread.credit_le hrange
    obtain ⟨hnonneg, hle⟩ := h.weighted peer hpeer
    have hweight := hmost peer hpeer
    have hsteps : most * ((peers.length : Int) - 1) = peers.length * most - most := by ring
    rw [credits_of hk, card_range, hsteps] at hlow hhigh
    omega
  · have hle : (peers.map RrPeer.effective_weight).sum ≤
        (peers.map RrPeer.effective_weight).length • most := by
      apply List.sum_le_card_nsmul
      intro weight hweight
      obtain ⟨peer, hpeer, rfl⟩ := List.mem_map.mp hweight
      exact (h.weighted peer hpeer).2.trans (hmost peer hpeer)
    rw [List.length_map, nsmul_eq_mul] at hle
    omega

/-- A selection in which no sum leaves its range: those of `part` take part, and the best of them, if
there is one, pays for all. -/
structure Round (now : Int) (tried : List Nat) (peers : List RrPeer)
    (r : Option Nat × List Nat × List RrPeer) (part : Finset Nat) : Prop where
  part_iff : ∀ k, k ∈ part ↔
    is_tried tried k = ok false ∧ ∃ peer, peers[k]? = some peer ∧ peer.unavailable now = false
  best : ∀ k ∈ part, ∃ x ∈ part, r.1 = some x ∧
    credits peers k + shares peers k ≤ credits peers x + shares peers x
  selected : ∀ x, r.1 = some x → x ∈ part
  total : ∑ j ∈ part, shares peers j ≤ (peers.map RrPeer.weight).sum
  peer : ∀ k peer, peers[k]? = some peer → ∃ peer', r.2.2[k]? = some peer' ∧
    peer'.weight = peer.weight ∧ peer'.effective_weight =
      (if k ∈ part then peer.advance.effective_weight else peer.effective_weight)
  credit : ∀ k, credits r.2.2 k = credits peers k + (if k ∈ part then shares peers k else 0) -
    if r.1 = some k then ∑ j ∈ part, shares peers j else 0

/-- What the loop of a selection does, where no sum leaves its range. -/
theorem get_peer_loop_part {best : Option Best} {total : Int} {advanced : List RrPeer}
    (h : get_peer_loop now tried 0 none 0 peers = ok (best, total, advanced)) (hfits : Fits 0 peers) :
    ∃ part : Finset Nat, (∀ k, k ∈ part ↔ is_tried tried k = ok false ∧
        ∃ peer, peers[k]? = some peer ∧ peer.unavailable now = false) ∧
      (∀ k peer, peers[k]? = some peer →
        advanced[k]? = some (if k ∈ part then peer.advance else peer)) ∧
      (∀ k, credits advanced k = credits peers k + if k ∈ part then shares peers k else 0) ∧
      total = ∑ k ∈ part, shares peers k := by
  classical
  have hlength : peers.length = advanced.length := (get_peer_loop_cases h).1.length_eq
  obtain ⟨part, hpart⟩ : ∃ part : Finset Nat, ∀ k, k ∈ part ↔ is_tried tried k = ok false ∧
      ∃ peer, peers[k]? = some peer ∧ peer.unavailable now = false := by
    refine ⟨(range peers.length).filter fun k => is_tried tried k = ok false ∧
      ∃ peer, peers[k]? = some peer ∧ peer.unavailable now = false, ?_⟩
    intro k
    rw [mem_filter, mem_range, and_iff_right_iff_imp]
    rintro ⟨-, peer, hpeer, -⟩
    exact (List.getElem?_eq_some_iff.mp hpeer).1
  have hsubset : part ⊆ range peers.length := by
    intro k hk
    obtain ⟨-, peer, hpeer, -⟩ := (hpart k).mp hk
    exact mem_range.mpr (List.getElem?_eq_some_iff.mp hpeer).1
  have hadvanced : ∀ k peer, peers[k]? = some peer →
      advanced[k]? = some (if k ∈ part then peer.advance else peer) := by
    intro k peer hpeer
    have hzero : 0 + k = k := Nat.zero_add k
    split_ifs with hk
    · obtain ⟨huntried, peer', hpeer', havailable⟩ := (hpart k).mp hk
      obtain rfl : peer' = peer := Option.some.inj (hpeer'.symm.trans hpeer)
      exact (get_peer_loop_takes h hpeer (by rwa [hzero]) havailable).1
    · apply get_peer_loop_skips h hpeer
      rw [hzero]
      rintro ⟨huntried, havailable⟩
      exact hk ((hpart k).mpr ⟨huntried, peer, hpeer, havailable⟩)
  have hcredits : ∀ k, credits advanced k = credits peers k + if k ∈ part then shares peers k else 0 := by
    intro k
    cases hpeer : peers[k]? with
    | none =>
      have hk : k ∉ part := by
        intro hk
        obtain ⟨-, peer, hsome, -⟩ := (hpart k).mp hk
        cases hpeer.symm.trans hsome
      have hnone : advanced[k]? = none := by
        rw [List.getElem?_eq_none_iff] at hpeer ⊢
        omega
      rw [if_neg hk, credits, credits, hpeer, hnone]
      rfl
    | some peer =>
      rw [credits_of (hadvanced k peer hpeer), credits_of hpeer, shares_of hpeer]
      split_ifs
      · exact RrPeer.advance_current_weight (hfits.credit peer (List.mem_of_getElem? hpeer))
      · omega
  refine ⟨part, hpart, hadvanced, hcredits, ?_⟩
  have hsum := (get_peer_loop_sum h hfits).1
  rw [← sum_credits, ← sum_credits, ← hlength, sum_congr rfl fun k _ => hcredits k, sum_add_distrib,
    sum_ite_mem, inter_eq_right.mpr hsubset] at hsum
  omega

/-- The candidate of the loop is one of those that take part, and none of them is ahead of it. -/
theorem get_peer_loop_ahead {best : Option Best} {total : Int} {advanced : List RrPeer}
    (h : get_peer_loop now tried 0 none 0 peers = ok (best, total, advanced)) (hfits : Fits 0 peers)
    (hpart : ∀ k, k ∈ part ↔ is_tried tried k = ok false ∧
      ∃ peer, peers[k]? = some peer ∧ peer.unavailable now = false) :
    (∀ k ∈ part, ∃ x ∈ part, best.map Best.p = some x ∧
        credits peers k + shares peers k ≤ credits peers x + shares peers x) ∧
      ∀ x, best.map Best.p = some x → x ∈ part := by
  have hcandidate : ∀ b, best = some b → ∃ peer, b.p ∈ part ∧ peers[b.p]? = some peer ∧
      peer.advance.current_weight = b.current_weight := by
    rintro b rfl
    obtain hnone | ⟨k, peer, hk, hpeer, huntried, havailable, hb⟩ := get_peer_loop_best h rfl
    · cases hnone
    rw [Nat.zero_add] at hk huntried
    subst hk
    exact ⟨peer, (hpart _).mpr ⟨huntried, peer, hpeer, havailable⟩, hpeer, hb⟩
  constructor
  · intro k hk
    obtain ⟨huntried, peer, hpeer, havailable⟩ := (hpart k).mp hk
    have hzero : 0 + k = k := Nat.zero_add k
    obtain ⟨-, b, rfl, hle⟩ := get_peer_loop_takes h hpeer (by rwa [hzero]) havailable
    obtain ⟨peer', hb, hpeer', hweight⟩ := hcandidate b rfl
    refine ⟨b.p, hb, rfl, ?_⟩
    rw [credits_of hpeer, shares_of hpeer, credits_of hpeer', shares_of hpeer',
      ← RrPeer.advance_current_weight (hfits.credit peer (List.mem_of_getElem? hpeer)),
      ← RrPeer.advance_current_weight (hfits.credit peer' (List.mem_of_getElem? hpeer')), hweight]
    exact hle
  · intro x hx
    obtain ⟨b, hbest, rfl⟩ := Option.map_eq_some_iff.mp hx
    obtain ⟨-, hb, -⟩ := hcandidate b hbest
    exact hb

/-- The selected peer pays, where the payment does not leave the range. -/
theorem credits_modify_selected {p : Nat} {total : Int} {peer : RrPeer} (hpeer : peers[p]? = some peer)
    (hlow : -2 ^ 63 ≤ peer.current_weight - total) (hhigh : peer.current_weight - total < 2 ^ 63) (k : Nat) :
    credits (peers.modify p (RrPeer.selected now total)) k =
      credits peers k - if k = p then total else 0 := by
  rw [credits, List.getElem?_modify]
  by_cases hk : k = p
  · subst hk
    rw [credits_of hpeer, hpeer]
    simp only [Option.map_eq_map, Option.map_some, if_true, Option.getD_some]
    exact Signed.int64_eq hlow hhigh
  · have hother : ¬ p = k := Ne.symm hk
    simp only [if_neg hother, if_neg hk, sub_zero, Option.map_eq_map, Option.map_id']
    rfl

/-- Where the weights are few and small, a selection is a round. -/
theorem Conserved.round (h : Conserved peers) (hmost : ∀ peer ∈ peers, peer.weight ≤ most)
    (hsmall : peers.length * most < 2 ^ 63) (hget : get_peer now tried peers = ok r) :
    ∃ part, Round now tried peers r part ∧ Spread (range peers.length) most (credits r.2.2) := by
  have hspread := h.spread most hmost hsmall
  have hfits := h.fits hmost hsmall
  obtain ⟨advanced, total, hsteps, ⟨best, hloop, hbest⟩, hselected⟩ := get_peer_cases hget
  obtain ⟨part, hpart, hadvanced, hcredits, htotal⟩ := get_peer_loop_part hloop hfits
  obtain ⟨hahead, hmember⟩ := get_peer_loop_ahead hloop hfits hpart
  rw [← hbest] at hahead hmember
  have hsubset : part ⊆ range peers.length := by
    intro k hk
    obtain ⟨-, peer, hpeer, -⟩ := (hpart k).mp hk
    exact mem_range.mpr (List.getElem?_eq_some_iff.mp hpeer).1
  have hbound : ∑ j ∈ part, shares peers j ≤ (peers.map RrPeer.weight).sum := by
    have hle := (get_peer_loop_sum hloop hfits).2
    have heffective : (peers.map RrPeer.effective_weight).sum ≤ (peers.map RrPeer.weight).sum :=
      List.sum_le_sum fun peer hpeer => (h.weighted peer hpeer).2
    omega
  obtain ⟨hnone, hlist, rfl⟩ | ⟨p, best₀, hp, hbest₀, -, hlist⟩ := hselected
  · have hempty : part = ∅ := by
      refine eq_empty_of_forall_notMem fun k hk => ?_
      obtain ⟨x, -, hx, -⟩ := hahead k hk
      cases hnone.symm.trans hx
    subst hempty
    refine ⟨∅, ⟨hpart, hahead, hmember, hbound, ?_, ?_⟩, ?_⟩
    · intro k peer hpeer
      rw [hlist]
      exact ⟨_, hadvanced k peer hpeer, by simp⟩
    · intro k
      rw [hlist, hcredits]
      simp
    · rw [hlist]
      refine hspread.congr fun k _ => ?_
      rw [hcredits]
      simp
  · have hgiven : ∀ k ∈ part, 0 ≤ shares peers k ∧ shares peers k ≤ most := by
      intro k hk
      obtain ⟨-, peer, hpeer, -⟩ := (hpart k).mp hk
      have hmem := List.mem_of_getElem? hpeer
      rw [shares_of hpeer]
      exact ⟨(h.weighted peer hmem).1, (h.weighted peer hmem).2.trans (hmost peer hmem)⟩
    have hbehind : ∀ k ∈ part, credits peers k + shares peers k ≤ credits peers p + shares peers p := by
      intro k hk
      obtain ⟨x, -, hx, hle⟩ := hahead k hk
      obtain rfl : x = p := Option.some.inj (hx.symm.trans hp)
      exact hle
    have hpay := hspread.pay hsubset (hmember p hp) hgiven hbehind
    have hcredit : ∀ k, credits r.2.2 k = credits peers k + (if k ∈ part then shares peers k else 0) -
        if k = p then ∑ j ∈ part, shares peers j else 0 := by
      intro k
      -- behind the payment the credit is still in the range
      have hrange := hsubset (hmember p hp)
      have hlow := hpay.le_credit hrange
      have hhigh := hpay.credit_le hrange
      have hsteps : most * ((peers.length : Int) - 1) = peers.length * most - most := by ring
      have hpos := (hgiven p (hmember p hp)).1.trans (hgiven p (hmember p hp)).2
      rw [card_range, hsteps, ← hcredits, if_pos rfl, ← htotal, credits_of (hadvanced p best₀ hbest₀)]
        at hlow hhigh
      rw [hlist, credits_modify_selected (hadvanced p best₀ hbest₀) (by omega) (by omega), hcredits, htotal]
    refine ⟨part, ⟨hpart, hahead, hmember, hbound, ?_, ?_⟩, hpay.congr fun k _ => hcredit k⟩
    · intro k peer hpeer
      rw [hlist, List.getElem?_modify, hadvanced k peer hpeer]
      refine ⟨_, rfl, ?_⟩
      split_ifs <;> exact ⟨rfl, rfl⟩
    · intro k
      rw [hcredit k, hp]
      simp only [Option.some.injEq, eq_comm]

/-- A selection takes from the selected peer what it has given to those that took part. -/
theorem Conserved.get_peer (h : Conserved peers) (hget : get_peer now tried peers = ok r) :
    Conserved r.2.2 := by
  obtain ⟨advanced, total, hpeers, ⟨best, hloop, -⟩, hselected⟩ := get_peer_cases hget
  have hweights := map_weight_of_get_peer hget
  have hlength : r.2.2.length = peers.length := by
    simpa only [List.length_map] using congrArg List.length hweights
  constructor
  · have hweighted : ∀ peer ∈ advanced, peer.Weighted := by
      intro peer hpeer
      obtain ⟨i, hi⟩ := List.mem_iff_getElem?.mp hpeer
      obtain ⟨hlt, rfl⟩ := List.getElem?_eq_some_iff.mp hi
      have hold := h.weighted _ (List.getElem_mem (by rw [hpeers.length_eq]; exact hlt))
      obtain hsame | hadvanced := hpeers.get (by rw [hpeers.length_eq]; exact hlt) hlt
      · rw [List.get_eq_getElem, List.get_eq_getElem] at hsame
        rwa [hsame]
      · rw [List.get_eq_getElem, List.get_eq_getElem] at hadvanced
        rw [hadvanced]
        exact hold.advance
    obtain ⟨-, hlist, -⟩ | ⟨p, -, -, -, -, hlist⟩ := hselected
    · rwa [hlist]
    · rw [hlist]
      intro peer hpeer
      obtain ⟨i, hi⟩ := List.mem_iff_getElem?.mp hpeer
      rw [List.getElem?_modify] at hi
      obtain ⟨old, hold, rfl⟩ := Option.map_eq_some_iff.mp hi
      have hold' := hweighted old (List.mem_of_getElem? hold)
      split_ifs
      · exact hold'
      · exact hold'
  · have hsum := get_peer_loop_dvd hloop
    have hold := h.wrapped
    obtain ⟨-, hlist, rfl⟩ | ⟨p, _, -, hpeer, -, hlist⟩ := hselected
    · rw [hlist]
      omega
    · obtain ⟨peer', hpeer'⟩ : ∃ peer', advanced[p]? = some peer' := by
        have hlt := (List.getElem?_eq_some_iff.mp hpeer).1
        rw [hpeers.length_eq] at hlt
        exact ⟨_, List.getElem?_eq_getElem hlt⟩
      have hpaid : (2 ^ 64 : Int) ∣
          ((advanced.modify p (RrPeer.selected now total)).map RrPeer.current_weight).sum -
            ((advanced.map RrPeer.current_weight).sum - total) := dvd_sum_modify_selected hpeer'
      rw [hlist]
      omega
  · intro most hmost hsmall
    rw [hlength] at hsmall ⊢
    obtain ⟨-, -, hspread⟩ := h.round (weight_le_of_map_eq hweights hmost) hsmall hget
    exact hspread

end

/-- The weights of both groups. -/
def Upstream.Conserved (us : Upstream) : Prop :=
  ∀ g peers, us.peers g = some peers → ngx_nsoc_upstream.Conserved peers.peer

theorem Upstream.Conserved.setPeer {us : Upstream} (h : us.Conserved) {g : Group} {peers : RrPeers}
    (hpeers : us.peers g = some peers) {peer : List RrPeer}
    (hpeer : ngx_nsoc_upstream.Conserved peer) : (us.setPeer peer g).Conserved := by
  intro g' peers' hpeers'
  by_cases hg : g' = g
  · subst hg
    rw [Upstream.peers_setPeer hpeers] at hpeers'
    obtain rfl := Option.some.inj hpeers'
    exact hpeer
  · rw [Upstream.peers_setPeer_of_ne hg] at hpeers'
    exact h g' peers' hpeers'

theorem Upstream.Conserved.modify {us : Upstream} (h : us.Conserved) (at_ : Group × Nat)
    {f : RrPeer → RrPeer} (hf : ∀ peer, peer.Weighted → (f peer).Weighted)
    (hcurrent : ∀ peer, (f peer).current_weight = peer.current_weight)
    (hweight : ∀ peer, (f peer).weight = peer.weight) : (us.modify at_ f).Conserved := by
  unfold Upstream.modify
  split
  · exact h
  · rename_i peers hpeers
    exact h.setPeer hpeers ((h _ _ hpeers).modify _ hf hcurrent hweight)

theorem RrPeer.current_weight_live (peer : RrPeer) : peer.live.current_weight = peer.current_weight := by
  unfold RrPeer.live
  split_ifs <;> rfl

theorem RrPeer.weight_live (peer : RrPeer) : peer.live.weight = peer.weight := by
  unfold RrPeer.live
  split_ifs <;> rfl

/-- Every change keeps the weights. -/
theorem Upstream.Conserved.change {now : Int} {us us' : Upstream} (h : us.Conserved)
    (hchange : Change now us us') : us'.Conserved := by
  cases hchange with
  | select hpeers hget => exact h.setPeer hpeers ((h _ _ hpeers).get_peer hget)
  | connect at_ => exact h.modify at_ (fun _ hpeer => hpeer) (fun _ => rfl) fun _ => rfl
  | disconnect at_ => exact h.modify at_ (fun _ hpeer => hpeer) (fun _ => rfl) fun _ => rfl
  | fail at_ => exact h.modify at_ (fun _ hpeer => hpeer.fail now) (fun _ => rfl) fun _ => rfl
  | release at_ =>
    exact h.modify at_ (fun _ hpeer => hpeer.live) RrPeer.current_weight_live RrPeer.weight_live
  | live at_ =>
    exact h.modify at_ (fun _ hpeer => hpeer.live) RrPeer.current_weight_live RrPeer.weight_live

/-- New peers. -/
theorem conserved_of_new {peers : List RrPeer} (h : ∀ peer ∈ peers, ∃ server : Server, peer = server.peer) :
    ngx_nsoc_upstream.Conserved peers := by
  constructor
  · intro peer hpeer
    obtain ⟨server, rfl⟩ := h peer hpeer
    exact ⟨Int.natCast_nonneg _, Int.le_refl _⟩
  · rw [List.sum_eq_zero]
    · exact Int.dvd_zero _
    · intro current_weight hmem
      obtain ⟨peer, hpeer, rfl⟩ := List.mem_map.mp hmem
      obtain ⟨server, rfl⟩ := h peer hpeer
      rfl
  · intro most hmost hsmall
    have hfresh : ∀ k ∈ range peers.length, credits peers k = 0 := by
      intro k hk
      have hpeer := List.getElem?_eq_getElem (mem_range.mp hk)
      obtain ⟨server, hserver⟩ := h _ (List.getElem_mem (mem_range.mp hk))
      rw [credits_of hpeer, hserver]
      rfl
    cases peers with
    | nil => exact ⟨rfl, by simp⟩
    | cons peer rest =>
      obtain ⟨server, hserver⟩ := h peer List.mem_cons_self
      have hweight := hmost peer List.mem_cons_self
      rw [hserver] at hweight
      exact (Spread.zero ((Int.natCast_nonneg server.weight).trans hweight)).congr hfresh

theorem Upstream.Configured.conserved {us : Upstream} (h : us.Configured) : us.Conserved := by
  intro g peers hpeers
  apply conserved_of_new
  intro peer hpeer
  obtain ⟨servers, hus⟩ | ⟨naddrs, -, rfl⟩ := h
  · have hnew : ∃ backup, peers.peer = server_peers backup servers := by
      simp only [init_round_robin] at hus
      split_ifs at hus <;> cases hus <;> cases g <;> cases hpeers
      · exact ⟨_, rfl⟩
      · exact ⟨_, rfl⟩
      · exact ⟨_, rfl⟩
    obtain ⟨backup, hlist⟩ := hnew
    rw [hlist, server_peers, List.mem_flatMap] at hpeer
    obtain ⟨server, -, hpeer⟩ := hpeer
    exact ⟨server, List.eq_of_mem_replicate hpeer⟩
  · cases g with
    | primary =>
      cases hpeers
      exact ⟨_, List.eq_of_mem_replicate hpeer⟩
    | backup => cases hpeers

/-- Behind any operations of any sessions every effective weight lies between zero and the weight of
its peer, and the current weights of each group add up to zero modulo the size of a word: to zero itself
if its peers are so few and their weights so small that no sum can leave the range of an `ngx_int_t`. -/
theorem weights_conserved {us : Upstream} (hus : us.Configured) {start stop : Int} {pool : Pool}
    (hrun : Operations start ⟨us, []⟩ stop pool) {g : Group} {peers : RrPeers}
    (hpeers : pool.us.peers g = some peers) :
    (∀ peer ∈ peers.peer, 0 ≤ peer.effective_weight ∧ peer.effective_weight ≤ peer.weight) ∧
      (2 ^ 64 : Int) ∣ (peers.peer.map RrPeer.current_weight).sum ∧
      ∀ most : Int, (∀ peer ∈ peers.peer, peer.weight ≤ most) → peers.number * most < 2 ^ 63 →
        (peers.peer.map RrPeer.current_weight).sum = 0 := by
  have hconserved : pool.us.Conserved :=
    hrun.invariant (fun _ _ _ h hchange => h.change hchange) hus.conserved
  refine ⟨(hconserved g peers hpeers).weighted, (hconserved g peers hpeers).wrapped, ?_⟩
  intro most hmost hsmall
  rw [← sum_credits]
  exact ((hconserved g peers hpeers).spread most hmost hsmall).sum

/-- Of two servers of weights 2 and 1 the first fails, and the session goes on to the second. -/
theorem weights_conserved_of_failure :
    ∃ pool peers, Operations 5 ⟨⟨⟨false, [Server.peer ⟨1, 2, 0, 1, 10, false, false⟩,
        Server.peer ⟨1, 1, 0, 1, 10, false, false⟩]⟩, none⟩, []⟩ 7 pool ∧
      pool.us.peers .primary = some peers ∧
      peers.peer.map RrPeer.effective_weight = [0, 1] ∧
      peers.peer.map RrPeer.current_weight = [-1, 1] ∧
      (peers.peer.map RrPeer.current_weight).sum = 0 := by
  have hconfigured : Upstream.Configured ⟨⟨false, [Server.peer ⟨1, 2, 0, 1, 10, false, false⟩,
      Server.peer ⟨1, 1, 0, 1, 10, false, false⟩]⟩, none⟩ :=
    .inl ⟨[⟨1, 2, 0, 1, 10, false, false⟩, ⟨1, 1, 0, 1, 10, false, false⟩], rfl⟩
  have hrun : ∃ pool, Operations 5 ⟨⟨⟨false, [Server.peer ⟨1, 2, 0, 1, 10, false, false⟩,
        Server.peer ⟨1, 1, 0, 1, 10, false, false⟩]⟩, none⟩, []⟩ 7 pool ∧
      ∃ peers, pool.us.peers .primary = some peers ∧
        peers.peer.map RrPeer.effective_weight = [0, 1] ∧
        peers.peer.map RrPeer.current_weight = [-1, 1] ∧
        (∀ peer ∈ peers.peer, peer.weight ≤ 2) ∧ peers.number = 2 :=
    ⟨_, ((((Operations.refl 5 _).tail .init (by decide : (5 : Int) ≤ 5) rfl).tail (.get 0)
      (by decide : (5 : Int) ≤ 6) rfl).tail (.free 0 true) (by decide : (6 : Int) ≤ 7) rfl).tail
      (.get 0) (by decide : (7 : Int) ≤ 7) rfl, _, rfl, by decide, by decide, by decide, rfl⟩
  obtain ⟨pool, hops, peers, hpeers, heffective, hcurrent, hmost, hnumber⟩ := hrun
  have hsum := (weights_conserved hconfigured hops hpeers).2.2 2 hmost (by rw [hnumber]; decide)
  exact ⟨pool, peers, hops, hpeers, heffective, hcurrent, hsum⟩

/-- Three servers of the greatest weight that the directive takes. The first selection adds up their
weights in an `ngx_int_t`, and the current weights no longer add up to zero. -/
theorem not_conserved_of_three_heavy :
    ∃ us pool peers, init_round_robin (List.replicate 3 ⟨1, 9223372036854775807, 0, 1, 10, false, false⟩) =
        some us ∧
      Operations 5 ⟨us, []⟩ 5 pool ∧ pool.us.peers .primary = some peers ∧
      (∀ peer ∈ peers.peer, 0 ≤ peer.effective_weight ∧ peer.effective_weight ≤ peer.weight) ∧
      peers.peer.map RrPeer.current_weight = [2, 9223372036854775807, 9223372036854775807] ∧
      (peers.peer.map RrPeer.current_weight).sum ≠ 0 := by
  refine ⟨_, _, _, rfl, ((Operations.refl 5 _).tail .init (by decide : (5 : Int) ≤ 5) rfl).tail (.get 0)
    (by decide : (5 : Int) ≤ 5) rfl, rfl, by decide, by decide, by decide⟩

end ngx_nsoc_upstream
