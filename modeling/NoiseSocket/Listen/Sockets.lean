import NoiseSocket.Listen.Ports

open Exec Exec.Result

namespace ngx_nsoc

variable {C : Type}

/-- The entry that `ngx_nsoc_add_addrs` makes of a directive. -/
def Listen.entry (l : Listen C) : InAddr C := ⟨l.addr, ⟨l.ctx, l.noise_on⟩⟩

/-- The socket of a directive that serves the addresses `addrs`. -/
def socket (l : Listen C) (addrs : List (Listen C)) : Listening C :=
  ⟨l.family, l.type, l.addr, l.port, l.wildcard, addrs.length, addrs.map Listen.entry⟩

theorem add_addrs_eq {conf_addrs before addrs behind : List (Listen C)}
    (hconf : conf_addrs = before ++ (addrs ++ behind)) :
    add_addrs conf_addrs before.length addrs.length = ok (addrs.map Listen.entry) := by
  induction addrs generalizing before with
  | nil => rfl
  | cons l addrs ih =>
    have hget : conf_addrs[before.length]? = some l := by simp [hconf]
    have hbehind : conf_addrs = (before ++ [l]) ++ (addrs ++ behind) := by simp [hconf]
    have hrest := ih hbehind
    rw [List.length_append, List.length_singleton] at hrest
    simp only [List.length_cons, add_addrs, hget, hrest, bind_ok, List.map_cons, Listen.entry]

/-- The sockets of the addresses `rest`, with the addresses `skipped` between `addr` and
them. -/
def sockets (bind_wildcard : Bool) : List (Listen C) → List (Listen C) → List (Listening C)
  | _, [] => []
  | skipped, opt :: rest =>
    if bind_wildcard ∧ ¬ opt.bind then sockets bind_wildcard (skipped ++ [opt]) rest
    else socket opt (skipped ++ [opt]) :: sockets bind_wildcard (skipped ++ [opt]).tail rest

section Loop

variable {conf_addrs before skipped rest : List (Listen C)} {opt : Listen C} {bind_wildcard : Bool}

theorem optimize_pass_skip (hconf : conf_addrs = before ++ (skipped ++ opt :: rest))
    (hskip : bind_wildcard ∧ ¬ opt.bind) {last : Nat} (hlast : skipped.length < last)
    (created : List (Listening C)) :
    optimize_pass conf_addrs bind_wildcard ⟨before.length, skipped.length, last, created⟩ =
      ok (.cont ⟨before.length, skipped.length + 1, last, created⟩) := by
  have hget : conf_addrs[before.length + skipped.length]? = some opt := by
    rw [hconf, ← List.append_assoc, ← List.length_append]
    simp
  simp only [optimize_pass, hlast, not_true_eq_false, if_false, hget, if_pos hskip]

theorem optimize_pass_create (hconf : conf_addrs = before ++ (skipped ++ opt :: rest))
    (hcreate : ¬ (bind_wildcard ∧ ¬ opt.bind)) {last : Nat} (hlast : skipped.length < last)
    (created : List (Listening C)) :
    optimize_pass conf_addrs bind_wildcard ⟨before.length, skipped.length, last, created⟩ =
      ok (.cont ⟨before.length + 1, skipped.length, last - 1,
        created ++ [socket opt (skipped ++ [opt])]⟩) := by
  have hget : conf_addrs[before.length + skipped.length]? = some opt := by
    rw [hconf, ← List.append_assoc, ← List.length_append]
    simp
  have hcopy : add_addrs conf_addrs before.length (skipped.length + 1) =
      ok ((skipped ++ [opt]).map Listen.entry) := by
    have heq : conf_addrs = before ++ ((skipped ++ [opt]) ++ rest) := by simp [hconf]
    simpa using add_addrs_eq heq
  simp only [optimize_pass, hlast, not_true_eq_false, if_false, hget, if_neg hcreate, hcopy, bind_ok,
    socket, List.length_append, List.length_singleton]

/-- The loop of `ngx_nsoc_optimize_servers` over the addresses of a port. -/
theorem optimize_loop_eq (hconf : conf_addrs = before ++ (skipped ++ rest))
    (created : List (Listening C)) {fuel : Nat} (hfuel : rest.length < fuel) :
    loop (optimize_pass conf_addrs bind_wildcard) fuel
      ⟨before.length, skipped.length, skipped.length + rest.length, created⟩ =
      ok (created ++ sockets bind_wildcard skipped rest) := by
  induction rest generalizing before skipped created fuel with
  | nil =>
    refine loop_of_done hfuel ?_
    simp [optimize_pass, sockets]
  | cons opt rest ih =>
    obtain ⟨n, rfl⟩ : ∃ n, fuel = n + 1 := ⟨fuel - 1, by simp at hfuel; omega⟩
    have hlast : skipped.length < skipped.length + (opt :: rest).length := by simp
    have hrest : rest.length < n := by simpa using hfuel
    by_cases hskip : bind_wildcard ∧ ¬ opt.bind
    · have heq : conf_addrs = before ++ ((skipped ++ [opt]) ++ rest) := by simp [hconf]
      have hstep := ih heq created hrest
      rw [List.length_append, List.length_singleton, Nat.add_right_comm, Nat.add_assoc] at hstep
      rw [loop_of_cont (optimize_pass_skip hconf hskip hlast created), sockets, if_pos hskip]
      exact hstep
    · -- `addr++` moves the first of the served addresses behind the pointer.
      obtain ⟨first, others, hserved⟩ : ∃ first others, skipped ++ [opt] = first :: others :=
        List.exists_cons_of_ne_nil (by simp)
      have hlength : others.length = skipped.length := by
        simpa using (congrArg List.length hserved).symm
      have heq : conf_addrs = (before ++ [first]) ++ (others ++ rest) := by
        have hassoc : skipped ++ opt :: rest = (skipped ++ [opt]) ++ rest := by simp
        rw [hconf, hassoc, hserved]
        simp
      have hstep := ih heq (created ++ [socket opt (skipped ++ [opt])]) hrest
      rw [List.length_append, List.length_singleton, hlength] at hstep
      rw [loop_of_cont (optimize_pass_create hconf hskip hlast created), sockets, if_neg hskip]
      simpa [hserved] using hstep

theorem optimize_port_loop_eq (conf_addrs : List (Listen C)) (bind_wildcard : Bool) :
    loop (optimize_pass conf_addrs bind_wildcard) (conf_addrs.length + 1)
      ⟨0, 0, conf_addrs.length, []⟩ = ok (sockets bind_wildcard [] conf_addrs) := by
  have hconf : conf_addrs = [] ++ ([] ++ conf_addrs) := rfl
  have hfuel : conf_addrs.length < conf_addrs.length + 1 := Nat.lt_succ_self _
  simpa using optimize_loop_eq hconf [] hfuel

end Loop

theorem sockets_bound (bind_wildcard : Bool) {bound : List (Listen C)} (hbound : ∀ x ∈ bound, x.bind = true)
    (rest : List (Listen C)) :
    sockets bind_wildcard [] (bound ++ rest) =
      bound.map (fun x => socket x [x]) ++ sockets bind_wildcard [] rest := by
  induction bound with
  | nil => rfl
  | cons x bound ih =>
    obtain ⟨hx, hbound⟩ := List.forall_mem_cons.mp hbound
    simp [sockets, hx, ih hbound]

theorem sockets_unbound {unbound : List (Listen C)} (hunbound : ∀ x ∈ unbound, x.bind = false)
    (skipped rest : List (Listen C)) :
    sockets true skipped (unbound ++ rest) = sockets true (skipped ++ unbound) rest := by
  induction unbound generalizing skipped with
  | nil => simp
  | cons x unbound ih =>
    obtain ⟨hx, hunbound⟩ := List.forall_mem_cons.mp hunbound
    simp [sockets, hx, ih hunbound]

theorem sockets_false (addrs : List (Listen C)) :
    sockets false [] addrs = addrs.map fun x => socket x [x] := by
  induction addrs with
  | nil => rfl
  | cons x addrs ih => simp [sockets, ih]

/-- Every explicitly bound address has a socket of its own, and the wildcard serves the
others. -/
theorem sockets_wildcard {bound unbound : List (Listen C)} (hbound : ∀ x ∈ bound, x.bind = true)
    (hunbound : ∀ x ∈ unbound, x.bind = false) {w : Listen C} (hw : w.bind = true) :
    sockets true [] (bound ++ (unbound ++ [w])) =
      bound.map (fun x => socket x [x]) ++ [socket w (unbound ++ [w])] := by
  rw [sockets_bound true hbound, sockets_unbound hunbound]
  simp [sockets, hw]

end ngx_nsoc
