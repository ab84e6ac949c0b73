import NoiseSocket.Phases.Order

open Exec Exec.Result Blocks

namespace ngx_nsoc

variable {H : Type} {phases : Phase → List H}

theorem Phase.lt_of_le_of_ne {p q : Phase} (hle : p ≤ q) (hne : p ≠ q) : p < q := by
  cases p <;> cases q <;> simp_all [Phase.lt_iff, Phase.le_iff, Phase.index]

/-- The phase of an entry of the table. -/
def phaseAt (phases : Phase → List H) (i : Nat) : Option Phase :=
  (declared phases)[i]?.map Entry.block

/-- Position `j` is the first entry of the next phase with entries behind the phase of
position `i`. -/
structure FirstOfNext (phases : Phase → List H) (i j : Nat) : Prop where
  lt : i < j
  skipped : ∀ k, i ≤ k → k < j → phaseAt phases k = phaseAt phases i
  lands : ∃ p q, phaseAt phases i = some p ∧ phaseAt phases j = some q ∧ p < q ∧
    ∀ r, p < r → r < q → phases r = []

/-- The jump target of an entry in front of the content phase. -/
theorem firstOfNext_next {i : Nat} {e : Entry Phase (Option H)}
    (he : (declared phases)[i]? = some e) (hblock : e.block ≠ .content) :
    FirstOfNext phases i e.next := by
  have hps := Phase.pairwise_before_log
  have hinside : e.next < (declared phases).length := core.Session.target_lt he hblock .jump
  obtain ⟨next, hnext, hlt, hle, hskip⟩ := next_spec hps he
  simp only [Nat.zero_add] at hnext
  subst hnext
  have he' : (declared phases)[e.next]? = some (declared phases)[e.next] :=
    List.getElem?_eq_getElem hinside
  generalize (declared phases)[e.next] = e' at he'
  have hne : e.block ≠ e'.block := fun heq =>
    absurd ((hskip e.next e' hlt.le he').mpr heq.symm) (lt_irrefl _)
  have hpq : e.block < e'.block :=
    Phase.lt_of_le_of_ne (block_le hps he he' hlt.le) hne
  refine ⟨hlt, ?_, e.block, e'.block, by simp [phaseAt, he], by simp [phaseAt, he'], hpq, ?_⟩
  · intro k hik hk
    have hkth := List.getElem?_eq_getElem (hk.trans hinside)
    simp [phaseAt, he, hkth, (hskip k _ hik hkth).mp hk]
  · intro r hpr hrq
    by_contra hr
    have hcontent : e'.block ≤ .content := core.Session.block_le_content (List.mem_of_getElem? he')
    have hrc : r < .content := hrq.trans_le hcontent
    obtain ⟨k, entry, hk, rfl⟩ := exists_position
      (Phase.mem_before_log.mpr hrc.le) ((block_ne_nil_iff hrc).mpr hr) 0
    -- An entry of a phase in between would stand between the two positions.
    have hik : i ≤ k := by
      by_contra hki
      exact absurd (block_le hps hk he (by omega)) hpr.not_ge
    have hkj : k < e.next := by
      by_contra hjk
      exact absurd (block_le hps he' hk (by omega)) hrq.not_ge
    exact hpr.ne' ((hskip k entry hik hk).mp hkj)

namespace core

/-- What a code returned at position `i` does to `s->phase_handler`. -/
inductive Moved (phases : Phase → List H) (i : Nat) : Option Int → Nat → Prop where
  | declined : Moved phases i (some NGX_DECLINED) (i + 1)
  | ok {j : Nat} (hnext : FirstOfNext phases i j) : Moved phases i (some NGX_OK) j
  | stay {rc : Option Int} (hok : rc ≠ some NGX_OK) (hdeclined : rc ≠ some NGX_DECLINED) :
      Moved phases i rc i

/-- The calls made from the first entry of the table on, the latest first, each of the
handler of its entry, and the position they lead to. -/
inductive Visited (phases : Phase → List H) : List (Call H) → Nat → Prop where
  | nil : Visited phases [] 0
  | cons {calls : List (Call H)} {call : Call H} {e : Entry Phase (Option H)} {j : Nat}
      (hcalls : Visited phases calls call.entry) (he : (declared phases)[call.entry]? = some e)
      (hhandler : call.handler = e.item) (hmoved : Moved phases call.entry call.rc j) :
      Visited phases (call :: calls) j

/-- A phase is passed when a handler of it has returned `NGX_OK`, or when each of them has
returned `NGX_DECLINED`. -/
def PassedPhase (phases : Phase → List H) (calls : List (Call H)) (p : Phase) : Prop :=
  (∃ call ∈ calls, phaseAt phases call.entry = some p ∧ call.rc = some NGX_OK) ∨
    ∀ k, phaseAt phases k = some p → ∃ call ∈ calls, call.entry = k ∧ call.rc = some NGX_DECLINED

theorem move_eq_jump_iff {rc : Option Int} : move rc = .jump ↔ rc = some NGX_OK := by
  simp only [move]
  split <;> simp_all
  split <;> simp_all

theorem move_eq_step_iff {rc : Option Int} : move rc = .step ↔ rc = some NGX_DECLINED := by
  simp only [move]
  split <;> simp_all

theorem mem_moves_iff {calls : List (Call H)} {k : Nat} {m : Move} :
    (k, m) ∈ calls.map (fun call => (call.entry, move call.rc)) ↔
      ∃ call ∈ calls, call.entry = k ∧ move call.rc = m := by
  simp

theorem passedPhase_of_passed {calls : List (Call H)} {p : Phase}
    (hpassed : Passed (declared phases) (calls.map fun call => (call.entry, move call.rc)) p) :
    PassedPhase phases calls p := by
  obtain ⟨k, e, hk, rfl, hjump⟩ | hall := hpassed
  · obtain ⟨call, hcall, rfl, hmove⟩ := mem_moves_iff.mp hjump
    exact .inl ⟨call, hcall, by simp [phaseAt, hk], move_eq_jump_iff.mp hmove⟩
  · refine .inr fun k hphase => ?_
    obtain ⟨e, he, hblock⟩ := Option.map_eq_some_iff.mp hphase
    obtain ⟨call, hcall, hentry, hmove⟩ := mem_moves_iff.mp (hall k e he hblock)
    exact ⟨call, hcall, hentry, move_eq_step_iff.mp hmove⟩

/-- A path of moves through the table is what the codes tell. -/
theorem visited_of_path {calls : List (Call H)} {i : Nat}
    (hpath : Path (declared phases) (calls.map fun call => (call.entry, move call.rc)) i)
    (hhandlers : ∀ call ∈ calls, ∃ e, (declared phases)[call.entry]? = some e ∧ call.handler = e.item)
    (hcontent : ∀ call ∈ calls, call.rc = some NGX_OK → phaseAt phases call.entry ≠ some .content) :
    Visited phases calls i := by
  induction calls generalizing i with
  | nil =>
    cases hpath
    exact .nil
  | cons call calls ih =>
    obtain ⟨e, he, hitem⟩ := hhandlers call List.mem_cons_self
    generalize hmoves : (call :: calls).map (fun call => (call.entry, move call.rc)) = visits at hpath
    cases hpath with
    | nil => cases hmoves
    | cons hpath hentry m =>
      rw [List.map_cons, List.cons.injEq, Prod.mk.injEq] at hmoves
      obtain ⟨⟨rfl, rfl⟩, rfl⟩ := hmoves
      obtain rfl : e = _ := Option.some.inj (he.symm.trans hentry)
      have hrest : Visited phases calls call.entry :=
        ih hpath (fun c hc => hhandlers c (List.mem_cons_of_mem _ hc))
          fun c hc => hcontent c (List.mem_cons_of_mem _ hc)
      refine .cons hrest he hitem ?_
      by_cases hok : call.rc = some NGX_OK
      · have hblock : e.block ≠ .content := fun h =>
          hcontent call List.mem_cons_self hok (by simp [phaseAt, he, h])
        rw [hok, move_ok]
        exact .ok (firstOfNext_next he hblock)
      by_cases hdeclined : call.rc = some NGX_DECLINED
      · rw [hdeclined, move_declined]
        exact .declined
      · have hmove : move call.rc = .stay := by simp only [move, hok, hdeclined, if_false]
        rw [hmove]
        exact .stay hok hdeclined

namespace Session

variable {handle : Handle H} {conf : SrvConf} {engine : PhaseEngine H}

/-- Only the content handler is called in the content phase, and it returns nothing. -/
theorem Sound.not_content {s : Session H} (hs : Sound phases s) : ∀ call ∈ s.calls,
    call.rc = some NGX_OK → phaseAt phases call.entry ≠ some .content := by
  intro call hcall hok hphase
  obtain ⟨e, he, hitem⟩ := hs.handlers call hcall
  have hblock : e.block = .content := by simpa [phaseAt, he] using hphase
  have hmem : e.item ∈ block phases .content :=
    hblock ▸ item_mem_of_mem_layout (List.mem_of_getElem? he)
  have hnone : call.handler = none := hitem.trans (List.mem_singleton.mp hmem)
  rw [hs.silent call hcall hnone] at hok
  cases hok

/-- What has been called so far is in the order of the phases. -/
theorem Sound.pairwise {s : Session H} (hs : Sound phases s) :
    s.calls.Pairwise fun later earlier => ∀ p q, phaseAt phases earlier.entry = some p →
      phaseAt phases later.entry = some q → p ≤ q := by
  have hpairwise := hs.path.pairwise Phase.pairwise_before_log
  rw [List.pairwise_map] at hpairwise
  refine hpairwise.imp fun hle p q hp hq => ?_
  obtain ⟨e, he, rfl⟩ := Option.map_eq_some_iff.mp hp
  obtain ⟨e', he', rfl⟩ := Option.map_eq_some_iff.mp hq
  exact block_le Phase.pairwise_before_log he he' hle

theorem Sound.passed {s : Session H} (hs : Sound phases s) {p q : Phase}
    (hq : phaseAt phases s.phase_handler = some q) (hpq : p < q) :
    PassedPhase phases s.calls p := by
  obtain ⟨e, he, rfl⟩ := Option.map_eq_some_iff.mp hq
  exact passedPhase_of_passed (hs.path.passed Phase.pairwise_before_log he hpq)

/-- `ngx_nsoc_core_run_phases` goes through the phases in their order, over any number of
resumptions: every position follows from the code returned at the one before, a phase is
left behind only when it has passed, and the table is never left. -/
theorem run_phases_in_order {alloc : Bool}
    (hinit : init_phase_handlers phases alloc = ok (some engine)) {s : Session H}
    (hs : Reachable handle conf engine s) :
    (s.phase_handler < engine.handlers.length ∧ engine.handlers.length ≤ engine.allocated ∧
      ∀ fuel, s.run_phases handle conf engine fuel ≠ fault) ∧
    Visited phases s.calls s.phase_handler ∧
    (s.calls.Pairwise fun later earlier => ∀ p q, phaseAt phases earlier.entry = some p →
      phaseAt phases later.entry = some q → p ≤ q) ∧
    (∀ p q, phaseAt phases s.phase_handler = some q → p < q → phases p ≠ [] →
      PassedPhase phases s.calls p) := by
  have hengine := Built.of_init hinit
  have hsound := hs.sound hengine
  refine ⟨⟨?_, hengine.length_le, ?_⟩, ?_, hsound.pairwise, ?_⟩
  · simpa [hengine.handlers] using hsound.inside
  · exact fun fuel => (hsound.run_phases hengine fuel).ne_fault
  · exact visited_of_path hsound.path hsound.handlers hsound.not_content
  · exact fun p q hq hpq _ => hsound.passed hq hpq

/-- A handler of the access phase, and one of the protect phase behind it. -/
def accessAndProtect : Phase → List Phase
  | .access => [.access]
  | .protect => [.protect]
  | _ => []

/-- The access handler declines, and the protect handler is done at its second call. -/
def handshakeTwice : Handle Phase := fun calls h client =>
  match h with
  | .protect => (if calls.length < 2 then NGX_AGAIN else NGX_OK, client)
  | _ => (NGX_DECLINED, client)

/-- A connection of which the operating system knows nothing bad. -/
def quietClient : Client where
  c := .fresh 0
  sock_stream := true
  tcp_nodelay_unset := false
  buffer := none
  recvs := []
  events := []
  allocs := []
  setsockopts := []

theorem run_phases_in_order_of_handshake :
    PassedPhase accessAndProtect
      [⟨2, none, none⟩, ⟨1, some .protect, some NGX_OK⟩, ⟨1, some .protect, some NGX_AGAIN⟩,
        ⟨0, some .access, some NGX_DECLINED⟩] .protect := by
  let conf : SrvConf := ⟨true, 0⟩
  let engine : PhaseEngine Phase :=
    ⟨3, [⟨.generic_phase, some .access, 1⟩, ⟨.generic_phase, some .protect, 2⟩,
      ⟨.content_phase, none, 0⟩]⟩
  have hinit : init_phase_handlers accessAndProtect true = ok (some engine) := rfl
  have hfirst : Reachable handshakeTwice conf engine ⟨1, quietClient,
      [⟨1, some .protect, some NGX_AGAIN⟩, ⟨0, some .access, some NGX_DECLINED⟩], none⟩ :=
    .run 4 (.created quietClient) rfl rfl
  have hsecond : Reachable handshakeTwice conf engine ⟨2, quietClient,
      [⟨2, none, none⟩, ⟨1, some .protect, some NGX_OK⟩, ⟨1, some .protect, some NGX_AGAIN⟩,
        ⟨0, some .access, some NGX_DECLINED⟩], none⟩ :=
    .run 4 hfirst rfl rfl
  exact (run_phases_in_order hinit hsecond).2.2.2 .protect .content rfl (by decide) (by decide)

end Session

end core

end ngx_nsoc
