import Mathlib.Algebra.Order.BigOperators.Group.List
import Mathlib.Tactic.Ring
import NoiseSocket.Upstream.Selection

open Exec Exec.Result

namespace ngx_nsoc_upstream

open ngx_nsoc

/-- One peer of the loop of `ngx_nsoc_upstream_get_peer`: it is left alone, or it takes part and the
loop goes on with it among the candidates. -/
theorem get_peer_loop_cons {now : Int} {tried : List Nat} {i : Nat} {best best' : Option Best}
    {total total' : Int} {peer : RrPeer} {rest peers' : List RrPeer}
    (h : get_peer_loop now tried i best total (peer :: rest) = ok (best', total', peers')) :
    ∃ rest', ((is_tried tried i = ok true ∨ peer.unavailable now = true) ∧ peers' = peer :: rest' ∧
        get_peer_loop now tried (i + 1) best total rest = ok (best', total', rest')) ∨
      ((is_tried tried i = ok false ∧ peer.unavailable now = false) ∧ peers' = peer.advance :: rest' ∧
        get_peer_loop now tried (i + 1) (Best.update best i peer.advance.current_weight)
          (Signed.int64 (total + peer.effective_weight)) rest = ok (best', total', rest')) := by
  obtain ⟨skip, hskip, h⟩ := bind_eq_ok_iff.mp h
  split_ifs at h with htake
  · obtain ⟨⟨best₁, total₁, rest'⟩, hrest, h⟩ := bind_eq_ok_iff.mp h
    cases h
    refine ⟨rest', .inl ⟨?_, rfl, hrest⟩⟩
    obtain rfl | hunavailable := htake
    · exact .inl hskip
    · exact .inr hunavailable
  · obtain ⟨⟨best₁, total₁, rest'⟩, hrest, h⟩ := bind_eq_ok_iff.mp h
    cases h
    obtain ⟨hno, havailable⟩ := not_or.mp htake
    have huntried : skip = false := by simpa using hno
    rw [huntried] at hskip
    exact ⟨rest', .inr ⟨⟨hskip, by simpa using havailable⟩, rfl, hrest⟩⟩

/-- The candidate behind a peer that takes part is at least as good as that peer and as the old
candidate. -/
theorem Best.le_update (best : Option Best) (i : Nat) (current_weight : Int) :
    ∃ b, Best.update best i current_weight = some b ∧ current_weight ≤ b.current_weight ∧
      ∀ old, best = some old → old.current_weight ≤ b.current_weight := by
  cases best with
  | none =>
    refine ⟨⟨i, current_weight⟩, rfl, Int.le_refl _, ?_⟩
    intro old hold
    cases hold
  | some b =>
    by_cases hless : b.current_weight < current_weight
    · refine ⟨⟨i, current_weight⟩, by simp only [Best.update, if_pos hless], Int.le_refl _, ?_⟩
      intro old hold
      cases hold
      exact Int.le_of_lt hless
    · refine ⟨b, by simp only [Best.update, if_neg hless], Int.not_lt.mp hless, ?_⟩
      intro old hold
      cases hold
      exact Int.le_refl _

/-- The candidate is the peer at `i` or the old one. -/
theorem Best.update_cases (best : Option Best) (i : Nat) (current_weight : Int) :
    Best.update best i current_weight = some ⟨i, current_weight⟩ ∨
      ∃ b, best = some b ∧ Best.update best i current_weight = some b := by
  unfold Best.update
  split
  · exact .inl rfl
  · split_ifs
    · exact .inl rfl
    · exact .inr ⟨_, rfl, rfl⟩

section

variable {now : Int} {tried : List Nat} {i : Nat} {best best' : Option Best} {total total' : Int}
  {peers peers' : List RrPeer}

/-- The candidate of the loop only gets better. -/
theorem get_peer_loop_le (h : get_peer_loop now tried i best total peers = ok (best', total', peers'))
    {b : Best} (hbest : best = some b) :
    ∃ b', best' = some b' ∧ b.current_weight ≤ b'.current_weight := by
  induction peers generalizing i best total b peers' with
  | nil =>
    cases h
    exact ⟨b, hbest, Int.le_refl _⟩
  | cons peer rest ih =>
    obtain ⟨rest', ⟨-, -, hrest⟩ | ⟨-, -, hrest⟩⟩ := get_peer_loop_cons h
    · exact ih hrest hbest
    · obtain ⟨b₁, hupdate, -, hold⟩ := Best.le_update best i peer.advance.current_weight
      obtain ⟨b', hb', hle⟩ := ih hrest hupdate
      exact ⟨b', hb', (hold b hbest).trans hle⟩

/-- An available peer that the session has not tried takes part, and nobody worse is selected. -/
theorem get_peer_loop_takes (h : get_peer_loop now tried i best total peers = ok (best', total', peers'))
    {k : Nat} {peer : RrPeer} (hpeer : peers[k]? = some peer)
    (huntried : is_tried tried (i + k) = ok false) (havailable : peer.unavailable now = false) :
    peers'[k]? = some peer.advance ∧
      ∃ b, best' = some b ∧ peer.advance.current_weight ≤ b.current_weight := by
  induction peers generalizing i best total k peers' with
  | nil => cases hpeer
  | cons first rest ih =>
    cases k with
    | zero =>
      obtain rfl : first = peer := Option.some.inj hpeer
      obtain ⟨rest', ⟨hskip, -, -⟩ | ⟨-, rfl, hrest⟩⟩ := get_peer_loop_cons h
      · obtain htried | hunavailable := hskip
        · cases htried.symm.trans huntried
        · cases hunavailable.symm.trans havailable
      · obtain ⟨b₁, hupdate, hle, -⟩ := Best.le_update best i first.advance.current_weight
        obtain ⟨b, hb, hle'⟩ := get_peer_loop_le hrest hupdate
        exact ⟨rfl, b, hb, hle.trans hle'⟩
    | succ k =>
      have huntried' : is_tried tried (i + 1 + k) = ok false := by
        rwa [show i + 1 + k = i + (k + 1) by omega]
      obtain ⟨rest', ⟨-, rfl, hrest⟩ | ⟨-, rfl, hrest⟩⟩ := get_peer_loop_cons h
      · exact ih hrest hpeer huntried'
      · exact ih hrest hpeer huntried'

/-- Another peer does not take part. -/
theorem get_peer_loop_skips (h : get_peer_loop now tried i best total peers = ok (best', total', peers'))
    {k : Nat} {peer : RrPeer} (hpeer : peers[k]? = some peer)
    (hskip : ¬ (is_tried tried (i + k) = ok false ∧ peer.unavailable now = false)) :
    peers'[k]? = some peer := by
  induction peers generalizing i best total k peers' with
  | nil => cases hpeer
  | cons first rest ih =>
    cases k with
    | zero =>
      obtain rfl : first = peer := Option.some.inj hpeer
      obtain ⟨rest', ⟨-, rfl, -⟩ | ⟨htakes, -, -⟩⟩ := get_peer_loop_cons h
      · rfl
      · exact absurd htakes hskip
    | succ k =>
      have hskip' : ¬ (is_tried tried (i + 1 + k) = ok false ∧ peer.unavailable now = false) := by
        rwa [show i + 1 + k = i + (k + 1) by omega]
      obtain ⟨rest', ⟨-, rfl, hrest⟩ | ⟨-, rfl, hrest⟩⟩ := get_peer_loop_cons h
      · exact ih hrest hpeer hskip'
      · exact ih hrest hpeer hskip'

/-- The candidate is a peer that takes part, with the current weight it has then. -/
theorem get_peer_loop_best (h : get_peer_loop now tried i best total peers = ok (best', total', peers'))
    {b : Best} (hbest : best' = some b) :
    best = some b ∨ ∃ k peer, b.p = i + k ∧ peers[k]? = some peer ∧ is_tried tried (i + k) = ok false ∧
      peer.unavailable now = false ∧ peer.advance.current_weight = b.current_weight := by
  induction peers generalizing i best total peers' with
  | nil =>
    cases h
    exact .inl hbest
  | cons first rest ih =>
    have hlater : (∃ k peer, b.p = i + 1 + k ∧ rest[k]? = some peer ∧
        is_tried tried (i + 1 + k) = ok false ∧ peer.unavailable now = false ∧
        peer.advance.current_weight = b.current_weight) →
        ∃ k peer, b.p = i + k ∧ (first :: rest)[k]? = some peer ∧ is_tried tried (i + k) = ok false ∧
          peer.unavailable now = false ∧ peer.advance.current_weight = b.current_weight := by
      rintro ⟨k, peer, hp, hk, huntried, hpeer⟩
      have hplace : i + (k + 1) = i + 1 + k := by omega
      exact ⟨k + 1, peer, by omega, by simpa using hk, by rwa [hplace], hpeer⟩
    obtain ⟨rest', ⟨-, rfl, hrest⟩ | ⟨⟨huntried, havailable⟩, rfl, hrest⟩⟩ := get_peer_loop_cons h
    · obtain hold | hplace := ih hrest
      · exact .inl hold
      · exact .inr (hlater hplace)
    · obtain hold | hplace := ih hrest
      · obtain hnew | ⟨b₀, hb₀, hkept⟩ := Best.update_cases best i first.advance.current_weight
        · cases hnew.symm.trans hold
          exact .inr ⟨0, first, rfl, rfl, huntried, havailable, rfl⟩
        · exact .inl (hb₀.trans (hkept.symm.trans hold))
      · exact .inr (hlater hplace)

/-- Each peer is left alone or takes part; where nobody takes part there is nothing to pay. -/
theorem get_peer_loop_cases (h : get_peer_loop now tried i best total peers = ok (best', total', peers')) :
    List.Forall₂ (fun peer peer' => peer' = peer ∨ peer' = peer.advance) peers peers' ∧
      (best' = none → total' = total) := by
  induction peers generalizing i best total best' total' peers' with
  | nil =>
    cases h
    exact ⟨.nil, fun _ => rfl⟩
  | cons peer rest ih =>
    obtain ⟨rest', ⟨-, rfl, hrest⟩ | ⟨-, rfl, hrest⟩⟩ := get_peer_loop_cons h
    · obtain ⟨hpeers, htotal⟩ := ih hrest
      exact ⟨.cons (.inl rfl) hpeers, htotal⟩
    · obtain ⟨hpeers, -⟩ := ih hrest
      refine ⟨.cons (.inr rfl) hpeers, ?_⟩
      intro hnone
      obtain ⟨b, hb, -⟩ := Best.le_update best i peer.advance.current_weight
      obtain ⟨b', hb', -⟩ := get_peer_loop_le hrest hb
      cases hnone.symm.trans hb'

/-- No sum leaves the range of an `ngx_int_t` where these peers are added to `total`. -/
structure Fits (total : Int) (peers : List RrPeer) : Prop where
  credit : ∀ peer ∈ peers, -2 ^ 63 ≤ peer.current_weight + peer.effective_weight ∧
    peer.current_weight + peer.effective_weight < 2 ^ 63
  given : ∀ peer ∈ peers, 0 ≤ peer.effective_weight
  nonneg : 0 ≤ total
  total : total + (peers.map RrPeer.effective_weight).sum < 2 ^ 63

theorem RrPeer.advance_current_weight {peer : RrPeer}
    (h : -2 ^ 63 ≤ peer.current_weight + peer.effective_weight ∧
      peer.current_weight + peer.effective_weight < 2 ^ 63) :
    peer.advance.current_weight = peer.current_weight + peer.effective_weight :=
  Signed.int64_eq h.1 h.2

theorem Fits.cons {peer : RrPeer} {rest : List RrPeer} (h : Fits total (peer :: rest)) :
    Fits total rest ∧ Fits (total + peer.effective_weight) rest ∧
      Signed.int64 (total + peer.effective_weight) = total + peer.effective_weight := by
  have hgiven := h.given peer List.mem_cons_self
  have hrest : ∀ p ∈ rest, 0 ≤ p.effective_weight := fun p hp => h.given p (List.mem_cons_of_mem _ hp)
  have hnonneg : 0 ≤ (rest.map RrPeer.effective_weight).sum := by
    apply List.sum_nonneg
    intro weight hweight
    obtain ⟨p, hp, rfl⟩ := List.mem_map.mp hweight
    exact hrest p hp
  have htotal := h.total
  have hpos := h.nonneg
  rw [List.map_cons, List.sum_cons] at htotal
  have hcredit := fun p hp => h.credit p (List.mem_cons_of_mem _ hp)
  refine ⟨⟨hcredit, hrest, hpos, by omega⟩, ⟨hcredit, hrest, by omega, by omega⟩, ?_⟩
  apply Signed.int64_eq
  · omega
  · omega

/-- What is to be paid is what those that take part have been given. -/
theorem get_peer_loop_sum (h : get_peer_loop now tried i best total peers = ok (best', total', peers'))
    (hfits : Fits total peers) :
    (peers'.map RrPeer.current_weight).sum = (peers.map RrPeer.current_weight).sum + (total' - total) ∧
      total' ≤ total + (peers.map RrPeer.effective_weight).sum := by
  induction peers generalizing i best total peers' with
  | nil =>
    cases h
    simp
  | cons peer rest ih =>
    obtain ⟨hskip, htake, hint⟩ := hfits.cons
    have hgiven := hfits.given peer List.mem_cons_self
    simp only [List.map_cons, List.sum_cons]
    obtain ⟨rest', ⟨-, rfl, hrest⟩ | ⟨-, rfl, hrest⟩⟩ := get_peer_loop_cons h
    · obtain ⟨hsum, hle⟩ := ih hrest hskip
      simp only [List.map_cons, List.sum_cons]
      omega
    · rw [hint] at hrest
      obtain ⟨hsum, hle⟩ := ih hrest htake
      have hadvance := RrPeer.advance_current_weight (hfits.credit peer List.mem_cons_self)
      simp only [List.map_cons, List.sum_cons]
      omega

/-- Modulo the size of a word this is so without a bound for the sums. -/
theorem get_peer_loop_dvd (h : get_peer_loop now tried i best total peers = ok (best', total', peers')) :
    (2 ^ 64 : Int) ∣ (peers'.map RrPeer.current_weight).sum - (peers.map RrPeer.current_weight).sum -
      (total' - total) := by
  induction peers generalizing i best total peers' with
  | nil =>
    cases h
    simp
  | cons peer rest ih =>
    obtain ⟨rest', ⟨-, rfl, hrest⟩ | ⟨-, rfl, hrest⟩⟩ := get_peer_loop_cons h
    · have hsum := ih hrest
      simp only [List.map_cons, List.sum_cons]
      omega
    · have hsum := ih hrest
      have hcredit : (2 ^ 64 : Int) ∣ peer.advance.current_weight -
          (peer.current_weight + peer.effective_weight) := Signed.dvd_int64_sub _
      have htotal := Signed.dvd_int64_sub (total + peer.effective_weight)
      simp only [List.map_cons, List.sum_cons]
      omega

/-- The selected peer pays, modulo the size of a word. -/
theorem dvd_sum_modify_selected {p : Nat} {peer : RrPeer} (hpeer : peers[p]? = some peer) :
    (2 ^ 64 : Int) ∣ ((peers.modify p (RrPeer.selected now total)).map RrPeer.current_weight).sum -
      ((peers.map RrPeer.current_weight).sum - total) := by
  induction peers generalizing p with
  | nil => cases hpeer
  | cons first rest ih =>
    cases p with
    | zero =>
      have hpaid : (2 ^ 64 : Int) ∣ (RrPeer.selected now total first).current_weight -
          (first.current_weight - total) := Signed.dvd_int64_sub _
      simp only [List.modify_zero_cons, List.map_cons, List.sum_cons]
      omega
    | succ p =>
      have hrest := ih hpeer
      simp only [List.modify_succ_cons, List.map_cons, List.sum_cons]
      omega

end

/-- A selection among several peers: some of them take part, and then the selected one, which was
available, pays what they have added. -/
theorem get_peer_cases {now : Int} {tried : List Nat} {peers : List RrPeer}
    {r : Option Nat × List Nat × List RrPeer} (h : get_peer now tried peers = ok r) :
    ∃ advanced total, List.Forall₂ (fun peer peer' => peer' = peer ∨ peer' = peer.advance) peers advanced ∧
      (∃ best, get_peer_loop now tried 0 none 0 peers = ok (best, total, advanced) ∧ r.1 = best.map Best.p) ∧
      (r.1 = none ∧ r.2.2 = advanced ∧ total = 0 ∨
        ∃ p peer, r.1 = some p ∧ peers[p]? = some peer ∧ peer.unavailable now = false ∧
          r.2.2 = advanced.modify p (RrPeer.selected now total)) := by
  obtain ⟨⟨best, total, advanced⟩, hloop, h⟩ := bind_eq_ok_iff.mp h
  obtain ⟨hpeers, htotal⟩ := get_peer_loop_cases hloop
  cases best with
  | none =>
    cases h
    exact ⟨advanced, total, hpeers, ⟨none, hloop, rfl⟩, .inl ⟨rfl, rfl, htotal rfl⟩⟩
  | some best =>
    obtain ⟨marked, -, h⟩ := bind_eq_ok_iff.mp h
    cases h
    obtain hnone | ⟨k, peer, hp, hk, -, havailable, -⟩ := get_peer_loop_best hloop rfl
    · cases hnone
    · rw [Nat.zero_add] at hp
      exact ⟨advanced, total, hpeers, ⟨some best, hloop, rfl⟩,
        .inr ⟨best.p, peer, rfl, by rw [hp]; exact hk, havailable, rfl⟩⟩

end ngx_nsoc_upstream
