import NoiseSocket.Listen.Sockets

open Exec Exec.Result

namespace ngx_nsoc

variable {C : Type}

/-- Where `ngx_nsoc_cmp_conf_addrs` puts a directive: explicitly bound ones, the others,
and the wildcard behind them. -/
def Listen.rank (l : Listen C) : Nat :=
  if l.wildcard then 2 else if l.bind then 0 else 1

theorem rank_le_of_cmp {x y : Listen C} (hcmp : 0 < cmp_conf_addrs y x) : x.rank ≤ y.rank := by
  grind [cmp_conf_addrs, Listen.rank]

theorem rank_le_of_not_cmp {x y : Listen C} (hcmp : ¬ 0 < cmp_conf_addrs y x) : y.rank ≤ x.rank := by
  grind [cmp_conf_addrs, Listen.rank]

theorem sort_pairwise_rank (addrs : List (Listen C)) :
    (Insertion.sort cmp_conf_addrs addrs).Pairwise fun x y => x.rank ≤ y.rank :=
  Insertion.sort_pairwise (fun x y => rank_le_of_cmp (x := x) (y := y))
    (fun x y => rank_le_of_not_cmp (x := x) (y := y)) addrs

/-- Without a wildcard the explicitly bound directives stand in front of the others. -/
theorem split_bound {addrs : List (Listen C)} (hsorted : addrs.Pairwise fun x y => x.rank ≤ y.rank)
    (hwildcard : ∀ x ∈ addrs, x.wildcard = false) :
    ∃ bound unbound, addrs = bound ++ unbound ∧ (∀ x ∈ bound, x.bind = true) ∧
      ∀ x ∈ unbound, x.bind = false := by
  induction addrs with
  | nil => exact ⟨[], [], rfl, fun _ hx => absurd hx List.not_mem_nil, fun _ hx => absurd hx List.not_mem_nil⟩
  | cons l addrs ih =>
    obtain ⟨hl, hsorted⟩ := List.pairwise_cons.mp hsorted
    obtain ⟨hlwild, hwildcard⟩ := List.forall_mem_cons.mp hwildcard
    cases hbind : l.bind with
    | true =>
      obtain ⟨bound, unbound, heq, hbound, hunbound⟩ := ih hsorted hwildcard
      exact ⟨l :: bound, unbound, by rw [heq]; rfl, List.forall_mem_cons.mpr ⟨hbind, hbound⟩, hunbound⟩
    | false =>
      refine ⟨[], l :: addrs, rfl, fun _ hx => absurd hx List.not_mem_nil, ?_⟩
      refine List.forall_mem_cons.mpr ⟨hbind, fun x hx => ?_⟩
      have hrank := hl x hx
      have hxwild := hwildcard x hx
      cases hxbind : x.bind with
      | false => rfl
      | true => simp [Listen.rank, hlwild, hbind, hxwild, hxbind] at hrank

theorem optimize_wildcard_eq {bound unbound : List (Listen C)} (last : Listen C)
    (hbound : ∀ x ∈ bound, x.bind = true) (hunbound : ∀ x ∈ unbound, x.bind = false) :
    loop (optimize_pass ((bound ++ unbound ++ [last]).set ((bound ++ unbound ++ [last]).length - 1)
      { last with bind := true }) true) ((bound ++ unbound ++ [last]).length + 1)
      ⟨0, 0, (bound ++ unbound ++ [last]).length, []⟩ =
      ok (bound.map (fun x => socket x [x]) ++ [socket last (unbound ++ [last])]) := by
  let conf_addrs := bound ++ (unbound ++ [{ last with bind := true }])
  have hset : (bound ++ unbound ++ [last]).set ((bound ++ unbound ++ [last]).length - 1)
      { last with bind := true } = conf_addrs := by simp [conf_addrs]
  have hlength : (bound ++ unbound ++ [last]).length = conf_addrs.length := by simp [conf_addrs]
  have hsockets : sockets true [] conf_addrs =
      bound.map (fun x => socket x [x]) ++ [socket last (unbound ++ [last])] := by
    rw [sockets_wildcard hbound hunbound rfl]
    simp [socket, Listen.entry]
  rw [hset, hlength, optimize_port_loop_eq, hsockets]

/-- A port whose last address is the wildcard. -/
theorem optimize_wildcard {front : List (Listen C)} {last : Listen C}
    (hsorted : front.Pairwise fun x y => x.rank ≤ y.rank) (hplain : ∀ x ∈ front, x.wildcard = false) :
    ∃ bound unbound, front = bound ++ unbound ∧
      loop (optimize_pass ((front ++ [last]).set ((front ++ [last]).length - 1)
        { last with bind := true }) true) ((front ++ [last]).length + 1)
        ⟨0, 0, (front ++ [last]).length, []⟩ =
        ok (bound.map (fun x => socket x [x]) ++ [socket last (unbound ++ [last])]) := by
  obtain ⟨bound, unbound, rfl, hbound, hunbound⟩ := split_bound hsorted hplain
  exact ⟨bound, unbound, rfl, optimize_wildcard_eq last hbound hunbound⟩

/-- A port without a wildcard. -/
theorem optimize_plain (addrs : List (Listen C)) :
    loop (optimize_pass addrs false) (addrs.length + 1) ⟨0, 0, addrs.length, []⟩ =
      ok (addrs.map fun x => socket x [x]) := by
  rw [optimize_port_loop_eq, sockets_false]

/-- What `ngx_nsoc_optimize_servers` makes of the directives for a port: a socket serves its
own directive, and the one of the wildcard those directives without a socket as well. -/
def Serves (addrs : List (Listen C)) (created : List (Listening C)) (ls : Listening C) : Prop :=
  ∃ w ∈ addrs, ∃ others, ls = socket w (others ++ [w]) ∧
    (∀ x ∈ others, x ∈ addrs ∧ x.wildcard = false) ∧ (w.wildcard = false → others = []) ∧
    (w.wildcard = true → ∀ x ∈ addrs, x = w ∨ x ∈ others ∨ socket x [x] ∈ created)

theorem serves_alone {addrs : List (Listen C)} {created : List (Listening C)} {x : Listen C}
    (hx : x ∈ addrs) (hwildcard : x.wildcard = false) : Serves addrs created (socket x [x]) := by
  refine ⟨x, hx, [], rfl, fun _ hy => absurd hy List.not_mem_nil, fun _ => rfl, fun h => ?_⟩
  rw [hwildcard] at h
  cases h

/-- Every socket of a port serves what it should. -/
theorem optimize_port_spec {port : ConfPort C} (hne : port.addrs ≠ [])
    (hone : ∀ x ∈ port.addrs, ∀ y ∈ port.addrs, x.wildcard = true → y.wildcard = true → x = y)
    (hnodup : port.addrs.Nodup) :
    ∃ created, optimize_port port = ok created ∧ ∀ ls ∈ created, Serves port.addrs created ls := by
  have hsorted := sort_pairwise_rank port.addrs
  have hperm : (Insertion.sort cmp_conf_addrs port.addrs).Perm port.addrs := Insertion.sort_perm _
  simp only [optimize_port]
  generalize Insertion.sort cmp_conf_addrs port.addrs = sorted at hsorted hperm ⊢
  have hmem : ∀ x, x ∈ sorted ↔ x ∈ port.addrs := fun x => hperm.mem_iff
  obtain ⟨front, last, rfl⟩ : ∃ front last, sorted = front ++ [last] := by
    have hsne : sorted ≠ [] := fun h => hne (by simpa [h] using hperm)
    exact ⟨sorted.dropLast, sorted.getLast hsne, (List.dropLast_append_getLast hsne).symm⟩
  obtain ⟨hfront, -, hrank⟩ := List.pairwise_append.mp hsorted
  have hget : (front ++ [last])[(front ++ [last]).length - 1]? = some last := by simp
  have hlast : last ∈ port.addrs := (hmem last).mp (by simp)
  simp only [hget]
  by_cases hwild : last.wildcard = true
  · -- The other directives of the port are no wildcards.
    have hplain : ∀ x ∈ front, x.wildcard = false := by
      intro x hx
      by_contra hxwild
      have heq : x = last := hone x ((hmem x).mp (List.mem_append_left _ hx)) last hlast
        (by simpa using hxwild) hwild
      have hdup := hperm.nodup_iff.mpr hnodup
      exact absurd heq ((List.nodup_append.mp hdup).2.2 x hx last (by simp))
    obtain ⟨bound, unbound, rfl, hloop⟩ := @optimize_wildcard _ _ last hfront hplain
    rw [if_pos hwild]
    refine ⟨_, hloop, fun ls hls => ?_⟩
    obtain hls | hls := List.mem_append.mp hls
    · obtain ⟨x, hx, rfl⟩ := List.mem_map.mp hls
      exact serves_alone ((hmem x).mp (by simp [hx])) (hplain x (List.mem_append_left _ hx))
    · obtain rfl := List.mem_singleton.mp hls
      refine ⟨last, hlast, unbound, rfl, ?_, fun h => ?_, fun _ x hx => ?_⟩
      · exact fun x hx => ⟨(hmem x).mp (by simp [hx]), hplain x (List.mem_append_right _ hx)⟩
      · rw [hwild] at h
        cases h
      · obtain hx | hx := List.mem_append.mp ((hmem x).mpr hx)
        · obtain hx | hx := List.mem_append.mp hx
          · exact .inr (.inr (List.mem_append_left _ (List.mem_map_of_mem hx)))
          · exact .inr (.inl hx)
        · exact .inl (List.mem_singleton.mp hx)
  · have hplain : ∀ x ∈ front ++ [last], x.wildcard = false := by
      intro x hx
      obtain hx | hx := List.mem_append.mp hx
      · have hle := hrank x hx last (by simp)
        grind [Listen.rank]
      · simpa [List.mem_singleton.mp hx] using hwild
    rw [if_neg hwild]
    refine ⟨_, optimize_plain _, fun ls hls => ?_⟩
    obtain ⟨x, hx, rfl⟩ := List.mem_map.mp hls
    exact serves_alone ((hmem x).mp hx) (hplain x hx)

/-- The sockets of all ports. -/
theorem optimize_servers_spec {ports : List (ConfPort C)} (hne : ∀ port ∈ ports, port.addrs ≠ [])
    (hone : ∀ port ∈ ports, ∀ x ∈ port.addrs, ∀ y ∈ port.addrs,
      x.wildcard = true → y.wildcard = true → x = y)
    (hnodup : ∀ port ∈ ports, port.addrs.Nodup) :
    ∃ created, optimize_servers ports = ok created ∧
      ∀ ls ∈ created, ∃ port ∈ ports, Serves port.addrs created ls := by
  induction ports with
  | nil => exact ⟨[], rfl, fun _ hls => absurd hls List.not_mem_nil⟩
  | cons port ports ih =>
    obtain ⟨hne, hnes⟩ := List.forall_mem_cons.mp hne
    obtain ⟨hone, hones⟩ := List.forall_mem_cons.mp hone
    obtain ⟨hnodup, hnodups⟩ := List.forall_mem_cons.mp hnodup
    obtain ⟨first, hfirst, hserves⟩ := optimize_port_spec hne hone hnodup
    obtain ⟨rest, hrest, hothers⟩ := ih hnes hones hnodups
    have hmono : ∀ addrs ls created, Serves addrs created ls → created ⊆ first ++ rest →
        Serves addrs (first ++ rest) ls := by
      intro addrs ls created ⟨w, hw, others, hls, hserved, halone, hall⟩ hsub
      refine ⟨w, hw, others, hls, hserved, halone, fun hwild x hx => ?_⟩
      obtain heq | hx | hx := hall hwild x hx
      · exact .inl heq
      · exact .inr (.inl hx)
      · exact .inr (.inr (hsub hx))
    refine ⟨first ++ rest, by simp [optimize_servers, hfirst, hrest], fun ls hls => ?_⟩
    obtain hls | hls := List.mem_append.mp hls
    · exact ⟨port, List.mem_cons_self, hmono _ _ _ (hserves ls hls) (List.subset_append_left _ _)⟩
    · obtain ⟨p, hp, hserves⟩ := hothers ls hls
      exact ⟨p, List.mem_cons_of_mem _ hp, hmono _ _ _ hserves (List.subset_append_right _ _)⟩

end ngx_nsoc
