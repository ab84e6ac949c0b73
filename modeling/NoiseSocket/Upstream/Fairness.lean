import Mathlib.Algebra.BigOperators.Fin
import NoiseSocket.Lib.Smooth
import NoiseSocket.Lib.Spread
import NoiseSocket.Upstream.Loop

open Exec Exec.Result

namespace ngx_nsoc_upstream

open ngx_nsoc Smooth

/-- A peer that has never failed and that nothing keeps from being selected. -/
structure RrPeer.Healthy (peer : RrPeer) : Prop where
  down : peer.down = false
  max_conns : peer.max_conns = 0
  fails : peer.fails = 0
  effective_weight : peer.effective_weight = peer.weight

theorem RrPeer.Healthy.available {peer : RrPeer} (h : peer.Healthy) (now : Int) :
    peer.unavailable now = false := by
  have hfails : ¬ (peer.max_fails ≠ 0 ∧ peer.max_fails ≤ peer.fails) := by
    rw [h.fails]
    omega
  simp only [RrPeer.unavailable, h.down, h.max_conns, ← and_assoc, hfails]
  simp

theorem RrPeer.Healthy.advance {peer : RrPeer} (h : peer.Healthy) : peer.advance.Healthy :=
  ⟨h.down, h.max_conns, h.fails, by simp [RrPeer.advance, h.effective_weight]⟩

/-- `best` is the first of the first `n` members with the greatest credit. -/
inductive BestOf (credit : Nat → Int) (n : Nat) : Option Best → Prop where
  | none (hn : n = 0) : BestOf credit n none
  | some (b : Best) (hp : b.p < n) (hcredit : b.current_weight = credit b.p)
      (hgreatest : ∀ j, j < n → credit j ≤ b.current_weight)
      (hfirst : ∀ j, j < b.p → credit j < b.current_weight) : BestOf credit n (some b)

theorem BestOf.update {credit : Nat → Int} {n : Nat} {best : Option Best}
    (h : BestOf credit n best) : BestOf credit (n + 1) (Best.update best n (credit n)) := by
  cases h with
  | none hn =>
    subst hn
    refine .some ⟨0, credit 0⟩ (Nat.lt_succ_self 0) rfl ?_ ?_
    · intro j hj
      obtain rfl : j = 0 := by omega
      exact Int.le_refl _
    · intro j hj
      exact absurd hj (Nat.not_lt_zero j)
  | some b hp hcredit hgreatest hfirst =>
    by_cases hless : b.current_weight < credit n
    · simp only [Best.update, if_pos hless]
      refine .some ⟨n, credit n⟩ (Nat.lt_succ_self n) rfl ?_ ?_
      · intro j hj
        obtain hlt | rfl := Nat.lt_succ_iff_lt_or_eq.mp hj
        · exact (hgreatest j hlt).trans hless.le
        · exact Int.le_refl _
      · intro j hj
        exact lt_of_le_of_lt (hgreatest j hj) hless
    · simp only [Best.update, if_neg hless]
      refine .some b (Nat.lt_succ_of_lt hp) hcredit ?_ hfirst
      intro j hj
      obtain hlt | rfl := Nat.lt_succ_iff_lt_or_eq.mp hj
      · exact hgreatest j hlt
      · exact Int.not_lt.mp hless

/-- The loop over healthy peers that have not been tried. -/
theorem get_peer_loop_healthy {credit : Nat → Int} (now : Int) {tried : List Nat} {i : Nat}
    {best : Option Best} (total : Int) {peers : List RrPeer}
    (hhealthy : ∀ peer ∈ peers, peer.Healthy)
    (hcredit : ∀ k peer, peers[k]? = some peer → credit (i + k) = peer.current_weight + peer.weight)
    (hfresh : ∀ k, k < peers.length → is_tried tried (i + k) = ok false)
    (hfits : Fits total peers) (hbest : BestOf credit i best) :
    ∃ best', get_peer_loop now tried i best total peers =
        ok (best', total + (peers.map RrPeer.weight).sum, peers.map RrPeer.advance) ∧
      BestOf credit (i + peers.length) best' := by
  induction peers generalizing i best total with
  | nil => exact ⟨best, by simp [get_peer_loop], hbest⟩
  | cons peer peers ih =>
    have hpeer := hhealthy peer List.mem_cons_self
    have hskip : is_tried tried i = ok false := hfresh 0 (Nat.succ_pos _)
    obtain ⟨-, hfits', hint⟩ := hfits.cons
    rw [hpeer.effective_weight] at hfits' hint
    have hvalue : credit i = peer.advance.current_weight := by
      rw [RrPeer.advance_current_weight (hfits.credit peer List.mem_cons_self), hpeer.effective_weight]
      exact hcredit 0 peer rfl
    have hrest : ∀ p ∈ peers, p.Healthy := fun p hp => hhealthy p (List.mem_cons_of_mem _ hp)
    have hcredit' : ∀ k p, peers[k]? = some p → credit (i + 1 + k) = p.current_weight + p.weight := by
      intro k p hk
      have hc := hcredit (k + 1) p hk
      rwa [show i + (k + 1) = i + 1 + k by omega] at hc
    have hfresh' : ∀ k, k < peers.length → is_tried tried (i + 1 + k) = ok false := by
      intro k hk
      have hf := hfresh (k + 1) (Nat.succ_lt_succ hk)
      rwa [show i + (k + 1) = i + 1 + k by omega] at hf
    obtain ⟨best', hloop, hbest'⟩ := ih (total + peer.weight) hrest hcredit' hfresh' hfits' hbest.update
    refine ⟨best', ?_, ?_⟩
    · simp only [get_peer_loop, hskip, hpeer.available now, bind_ok, Bool.false_eq_true, or_self, if_false]
      rw [← hvalue, hpeer.effective_weight, hint, hloop, bind_ok]
      simp [Int.add_assoc]
    · rwa [List.length_cons, show i + (peers.length + 1) = i + 1 + peers.length by omega]

/-- Healthy peers with the weights `w` and the current weights `c`. -/
structure Credits {n : Nat} (w c : Fin n → Int) (peers : List RrPeer) : Prop where
  length : peers.length = n
  healthy : ∀ peer ∈ peers, peer.Healthy
  weight : ∀ j : Fin n, peers[j.val]?.map RrPeer.weight = some (w j)
  current : ∀ j : Fin n, peers[j.val]?.map RrPeer.current_weight = some (c j)

/-- Credits of peers whose weights are at most `most`, so few and so small that no sum leaves the range
of an `ngx_int_t`. -/
structure Level {n : Nat} (most : Int) (w c : Fin n → Int) : Prop where
  weight : ∀ j, 0 ≤ w j ∧ w j ≤ most
  small : n * most < 2 ^ 63
  spread : Spread Finset.univ most c

section

variable {n : Nat} {w c : Fin n → Int} {peers : List RrPeer} {most : Int}

theorem Level.range (h : Level most w c) (j : Fin n) :
    -2 ^ 63 ≤ c j ∧ c j + w j < 2 ^ 63 := by
  have hlow := h.spread.le_credit (Finset.mem_univ j)
  have hhigh := h.spread.credit_le (Finset.mem_univ j)
  have hsmall := h.small
  obtain ⟨hpos, hle⟩ := h.weight j
  rw [Finset.card_univ, Fintype.card_fin] at hlow hhigh
  have hsteps : most * ((n : Int) - 1) = n * most - most := by ring
  rw [hsteps] at hlow hhigh
  omega

theorem Level.pay {p : Fin n} (h : Level most w c) (hfirst : First w c p) : Level most w (pay w c p) := by
  refine ⟨h.weight, h.small, ?_⟩
  have hpay := h.spread.pay (Finset.subset_univ Finset.univ) (Finset.mem_univ p) (e := w)
    (fun j _ => h.weight j) fun j _ => hfirst.greatest j
  refine hpay.congr fun j _ => ?_
  rw [if_pos (Finset.mem_univ j)]
  rfl

theorem Level.total_lt (h : Level most w c) : total w < 2 ^ 63 := by
  have hle : total w ≤ Finset.card (Finset.univ : Finset (Fin n)) • most :=
    Finset.sum_le_card_nsmul _ _ _ fun j _ => (h.weight j).2
  rw [Finset.card_univ, Fintype.card_fin, nsmul_eq_mul] at hle
  exact Int.lt_of_le_of_lt hle h.small

theorem Credits.sum (h : Credits w c peers) : (peers.map RrPeer.weight).sum = total w := by
  have hofFn : peers.map RrPeer.weight = List.ofFn w := by
    apply List.ext_getElem?
    intro j
    rw [List.getElem?_map, List.getElem?_ofFn]
    by_cases hj : j < n
    · rw [dif_pos hj]
      exact h.weight ⟨j, hj⟩
    · rw [dif_neg hj, List.getElem?_eq_none (by rw [h.length]; omega)]
      rfl
  rw [hofFn, List.sum_ofFn]
  rfl

/-- No sum of a selection among these peers leaves the range. -/
theorem Credits.fits (h : Credits w c peers) (hlevel : Level most w c) : Fits 0 peers := by
  have hget : ∀ peer ∈ peers, ∃ j, peer.effective_weight = w j ∧ peer.current_weight = c j := by
    intro peer hpeer
    obtain ⟨j, hj⟩ := List.mem_iff_getElem?.mp hpeer
    have hlt : j < n := by
      rw [← h.length]
      exact (List.getElem?_eq_some_iff.mp hj).1
    have hw := h.weight ⟨j, hlt⟩
    have hc := h.current ⟨j, hlt⟩
    rw [hj] at hw hc
    exact ⟨⟨j, hlt⟩, (h.healthy peer hpeer).effective_weight.trans (Option.some.inj hw), Option.some.inj hc⟩
  have hsame : peers.map RrPeer.effective_weight = peers.map RrPeer.weight :=
    List.map_congr_left fun peer hpeer => (h.healthy peer hpeer).effective_weight
  refine ⟨?_, ?_, Int.le_refl 0, ?_⟩
  · intro peer hpeer
    obtain ⟨j, hw, hc⟩ := hget peer hpeer
    have hrange := hlevel.range j
    have hpos := (hlevel.weight j).1
    rw [hw, hc]
    omega
  · intro peer hpeer
    obtain ⟨j, hw, -⟩ := hget peer hpeer
    rw [hw]
    exact (hlevel.weight j).1
  · rw [hsame, h.sum, Int.zero_add]
    exact hlevel.total_lt

/-- Advancing everybody and letting `p` pay is a round of smooth weighted round robin. -/
theorem Credits.pay (h : Credits w c peers) (hlevel : Level most w c) (now : Int) {p : Fin n}
    (hfirst : First w c p) :
    Credits w (pay w c p) ((peers.map RrPeer.advance).modify p (RrPeer.selected now (total w))) := by
  have hget : ∀ j : Fin n, ∃ peer, peers[j.val]? = some peer ∧ peer.Healthy ∧ peer.weight = w j ∧
      peer.current_weight = c j := by
    intro j
    have hj : j.val < peers.length := by rw [h.length]; exact j.isLt
    have hw := h.weight j
    have hc := h.current j
    rw [List.getElem?_eq_getElem hj] at hw hc
    exact ⟨peers[j.val], List.getElem?_eq_getElem hj, h.healthy _ (List.getElem_mem hj),
      Option.some.inj hw, Option.some.inj hc⟩
  refine ⟨by simp [h.length], ?_, ?_, ?_⟩
  · intro peer hpeer
    obtain ⟨j, hj⟩ := List.mem_iff_getElem?.mp hpeer
    rw [List.getElem?_modify, List.getElem?_map] at hj
    obtain ⟨advanced, hadvanced, rfl⟩ := Option.map_eq_some_iff.mp hj
    obtain ⟨old, hold, rfl⟩ := Option.map_eq_some_iff.mp hadvanced
    have hhealthy := (h.healthy old (List.mem_of_getElem? hold)).advance
    split_ifs
    · exact ⟨hhealthy.down, hhealthy.max_conns, hhealthy.fails, hhealthy.effective_weight⟩
    · exact hhealthy
  · intro j
    obtain ⟨peer, hpeer, hhealthy, hw, hc⟩ := hget j
    rw [List.getElem?_modify, List.getElem?_map, hpeer]
    split_ifs <;> simp [RrPeer.selected, RrPeer.advance, hw]
  · intro j
    obtain ⟨peer, hpeer, hhealthy, hw, hc⟩ := hget j
    rw [List.getElem?_modify, List.getElem?_map, hpeer]
    have hrange := hlevel.range j
    have hpos := (hlevel.weight j).1
    have hadvance : peer.advance.current_weight = c j + w j := by
      rw [RrPeer.advance_current_weight (by rw [hhealthy.effective_weight, hw, hc]; omega),
        hhealthy.effective_weight, hw, hc]
    by_cases hj : j = p
    · subst hj
      have hpaid := (hlevel.pay hfirst).range j
      simp only [Smooth.pay, if_true] at hpaid ⊢
      have hselected : (RrPeer.selected now (total w) peer.advance).current_weight = c j + w j - total w := by
        simp only [RrPeer.selected, hadvance]
        apply Signed.int64_eq
        · exact hpaid.1
        · omega
      simp [hselected]
    · have hne : ¬ p.val = j.val := fun heq => hj (Fin.ext heq.symm)
      simp [Smooth.pay, hadvance, hj, hne]

/-- A session that has tried nobody selects the first peer with the greatest credit. -/
theorem Credits.get_peer (h : Credits w c peers) (hlevel : Level most w c) (now : Int) (hn : 0 < n)
    {tried : List Nat}
    (hfresh : ∀ i, i < n → is_tried tried i = ok false) :
    ∃ (p : Fin n) (tried' : List Nat) (peers' : List RrPeer),
      get_peer now tried peers = ok (some p.val, tried', peers') ∧ First w c p ∧
      Credits w (Smooth.pay w c p) peers' := by
  let credit : Nat → Int := fun j => if hj : j < n then c ⟨j, hj⟩ + w ⟨j, hj⟩ else 0
  have hcredit : ∀ k peer, peers[k]? = some peer → credit (0 + k) = peer.current_weight + peer.weight := by
    intro k peer hk
    have hlt : k < n := by
      rw [← h.length]
      exact (List.getElem?_eq_some_iff.mp hk).1
    have hw := h.weight ⟨k, hlt⟩
    have hc := h.current ⟨k, hlt⟩
    rw [hk] at hw hc
    simp only [credit, Nat.zero_add, dif_pos hlt, ← Option.some.inj hw, ← Option.some.inj hc]
  have hfresh' : ∀ k, k < peers.length → is_tried tried (0 + k) = ok false := by
    intro k hk
    rw [Nat.zero_add]
    exact hfresh k (by rwa [← h.length])
  obtain ⟨best, hloop, hbest⟩ :=
    get_peer_loop_healthy now 0 h.healthy hcredit hfresh' (h.fits hlevel) (.none rfl)
  rw [Nat.zero_add, h.length] at hbest
  cases hbest with
  | none hzero => omega
  | some b hp hvalue hgreatest hfirst =>
    have hmark : ∃ tried', set_tried tried b.p = ok tried' := by
      have hin := hfresh b.p hp
      unfold is_tried at hin
      unfold set_tried
      cases hword : tried[b.p / 64]? with
      | none => simp [hword] at hin
      | some word => exact ⟨_, rfl⟩
    obtain ⟨tried', hmark⟩ := hmark
    have hsum : (0 : Int) + (peers.map RrPeer.weight).sum = total w := by rw [Int.zero_add, h.sum]
    rw [hsum] at hloop
    have hfirst' : First w c ⟨b.p, hp⟩ := by
      constructor
      · intro j
        have hle := hgreatest j.val j.isLt
        rw [hvalue] at hle
        simpa only [credit, dif_pos j.isLt, dif_pos hp] using hle
      · intro j hj
        have hlt := hfirst j.val hj
        rw [hvalue] at hlt
        simpa only [credit, dif_pos j.isLt, dif_pos hp] using hlt
    refine ⟨⟨b.p, hp⟩, tried', _, ?_, hfirst', h.pay hlevel now hfirst'⟩
    simp only [ngx_nsoc_upstream.get_peer, hloop, hmark, bind_ok]

end

end ngx_nsoc_upstream
