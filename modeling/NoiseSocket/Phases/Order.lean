import NoiseSocket.Phases.Table

open Exec Exec.Result Blocks

namespace ngx_nsoc.core

variable {H : Type} {phases : Phase → List H} {handle : Handle H} {conf : SrvConf}
  {engine : PhaseEngine H}

/-- How a handler's code moves the session: `NGX_DECLINED` to the next entry, `NGX_OK`
behind the phase, and every other code nowhere. -/
def move (rc : Option Int) : Move :=
  if rc = some NGX_OK then .jump else if rc = some NGX_DECLINED then .step else .stay

theorem move_ok : move (some NGX_OK) = .jump := rfl

theorem move_declined : move (some NGX_DECLINED) = .step := rfl

theorem move_stay {rc : Int} (hok : rc ≠ NGX_OK) (hdeclined : rc ≠ NGX_DECLINED) :
    move (some rc) = .stay := by
  simp only [move, Option.some.injEq, hok, hdeclined, if_false]

namespace Session

/-- The calls of a session are a path through what is to be visited, and
`s->phase_handler` is where it has got to. -/
structure Sound (phases : Phase → List H) (s : Session H) : Prop where
  path : Path (declared phases) (s.calls.map fun call => (call.entry, move call.rc)) s.phase_handler
  handlers : ∀ call ∈ s.calls, ∃ e, (declared phases)[call.entry]? = some e ∧ call.handler = e.item
  silent : ∀ call ∈ s.calls, call.handler = none → call.rc = none
  inside : s.phase_handler < (declared phases).length

/-- The checker stands at the entry `e` and has the code `rc`, which has not moved the
session yet. -/
structure Pending (phases : Phase → List H) (e : Entry Phase (Option H)) (rc : Int)
    (s : Session H) : Prop where
  entry : (declared phases)[s.phase_handler]? = some e
  moved : Sound phases { s with phase_handler := e.target s.phase_handler (move (some rc)) }

theorem sound_created (client : Client) : Sound phases (created client) where
  path := .nil
  handlers := fun _ hcall => absurd hcall List.not_mem_nil
  silent := fun _ hcall => absurd hcall List.not_mem_nil
  inside := by
    obtain ⟨k, e, hk, -⟩ := @exists_position _ _ (block phases) _ _
      (Phase.mem_before_log.mpr (le_refl Phase.content)) (by simp [block]) 0
    exact (Nat.zero_le k).trans_lt (List.getElem?_eq_some_iff.mp hk).1

/-- Only the calls and the position count. -/
theorem Sound.congr {s s' : Session H} (hs : Sound phases s) (hcalls : s'.calls = s.calls)
    (hposition : s'.phase_handler = s.phase_handler) : Sound phases s' where
  path := by rw [hcalls, hposition]; exact hs.path
  handlers := by rw [hcalls]; exact hs.handlers
  silent := by rw [hcalls]; exact hs.silent
  inside := by rw [hposition]; exact hs.inside

theorem Sound.exists_entry {s : Session H} (hs : Sound phases s) :
    ∃ e, (declared phases)[s.phase_handler]? = some e :=
  ⟨_, List.getElem?_eq_getElem hs.inside⟩

theorem Pending.congr {e : Entry Phase (Option H)} {rc : Int} {s s' : Session H}
    (hs : Pending phases e rc s) (hcalls : s'.calls = s.calls)
    (hposition : s'.phase_handler = s.phase_handler) : Pending phases e rc s' where
  entry := by rw [hposition]; exact hs.entry
  moved := hs.moved.congr hcalls (by rw [hposition])

/-- A code that moves nothing. -/
theorem Pending.sound {e : Entry Phase (Option H)} {rc : Int} {s : Session H}
    (hs : Pending phases e rc s) (hok : rc ≠ NGX_OK) (hdeclined : rc ≠ NGX_DECLINED) :
    Sound phases s :=
  hs.moved.congr rfl (by rw [move_stay hok hdeclined]; rfl)

theorem Sound.pending {e : Entry Phase (Option H)} {rc : Int} {s : Session H}
    (hs : Sound phases s) (he : (declared phases)[s.phase_handler]? = some e) (hok : rc ≠ NGX_OK)
    (hdeclined : rc ≠ NGX_DECLINED) : Pending phases e rc s :=
  ⟨he, hs.congr rfl (by rw [move_stay hok hdeclined]; rfl)⟩

theorem Pending.sound_next {e : Entry Phase (Option H)} {s : Session H}
    (hs : Pending phases e NGX_OK s) : Sound phases { s with phase_handler := e.next } :=
  hs.moved

theorem Pending.sound_succ {e : Entry Phase (Option H)} {s : Session H}
    (hs : Pending phases e NGX_DECLINED s) :
    Sound phases { s with phase_handler := s.phase_handler + 1 } :=
  hs.moved

theorem block_le_content {e : Entry Phase (Option H)} (he : e ∈ declared phases) :
    e.block ≤ .content :=
  Phase.mem_before_log.mp (block_mem_of_mem_layout he)

/-- In front of the content phase every move stays in the table. -/
theorem target_lt {i : Nat} {e : Entry Phase (Option H)} (he : (declared phases)[i]? = some e)
    (hblock : e.block ≠ .content) (move : Move) : e.target i move < (declared phases).length := by
  have hle := block_le_content (List.mem_of_getElem? he)
  have hlt : e.block < .content := by
    cases hphase : e.block <;> simp_all [Phase.lt_iff, Phase.le_iff, Phase.index]
  exact Entry.target_lt Phase.pairwise_before_log he (Phase.mem_before_log.mpr (le_refl _))
    (by simp [block]) hlt move

/-- A call of the handler of the current entry. -/
theorem Sound.call_handler {s : Session H} (hs : Sound phases s) {e : Entry Phase (Option H)}
    (he : (declared phases)[s.phase_handler]? = some e) (hblock : e.block ≠ .content)
    {ph : PhaseHandler H} (hph : ph.handler = e.item) :
    (s.call_handler handle ph).Safe fun r => Pending phases e r.1 r.2 := by
  obtain ⟨h, hitem⟩ := exists_handler (item_mem_of_mem_layout (List.mem_of_getElem? he)) hblock
  rw [hitem] at hph
  simp only [Session.call_handler, hph]
  refine ⟨he, ⟨.cons hs.path he _, ?_, ?_, target_lt he hblock _⟩⟩
  · exact List.forall_mem_cons.mpr ⟨⟨e, he, hitem.symm⟩, hs.handlers⟩
  · exact List.forall_mem_cons.mpr ⟨nofun, hs.silent⟩

/-- `ngx_nsoc_core_generic_phase` moves the session as the handler tells. -/
theorem Sound.generic_phase {s : Session H} (hs : Sound phases s) {e : Entry Phase (Option H)}
    (he : (declared phases)[s.phase_handler]? = some e) (hblock : e.block ≠ .content)
    {ph : PhaseHandler H} (hhandler : ph.handler = e.item) (hnext : ph.next = e.next) :
    (s.generic_phase handle ph).Safe fun r => Sound phases r.2 := by
  refine (hs.call_handler he hblock hhandler).bind fun r hr => ?_
  obtain ⟨rc, s'⟩ := r
  dsimp only at hr ⊢
  by_cases hok : rc = NGX_OK
  · subst hok
    rw [if_pos rfl, hnext]
    exact hr.sound_next
  rw [if_neg hok]
  by_cases hdeclined : rc = NGX_DECLINED
  · subst hdeclined
    rw [if_pos rfl]
    exact hr.sound_succ
  rw [if_neg hdeclined]
  have hsound := hr.sound hok hdeclined
  split
  · exact hsound
  · exact hsound.congr rfl rfl

theorem prepare_buffer_calls (s : Session H) :
    (s.prepare_buffer conf).2.calls = s.calls ∧
      (s.prepare_buffer conf).2.phase_handler = s.phase_handler := by
  simp only [prepare_buffer]
  split
  · exact ⟨rfl, rfl⟩
  · split <;> exact ⟨rfl, rfl⟩

/-- What the loop of `ngx_nsoc_core_preread_phase` leaves behind. -/
def Preread.Sound (phases : Phase → List H) (e : Entry Phase (Option H)) : Preread H → Prop
  | .suspended s => Session.Sound phases s
  | .left rc s => Pending phases e rc s

theorem Pending.preread_pass {x : Int × Session H} {e : Entry Phase (Option H)}
    (hx : Pending phases e x.1 x.2) (hblock : e.block ≠ .content) {ph : PhaseHandler H}
    (hhandler : ph.handler = e.item) :
    (preread_pass handle conf ph x).Safe
      (ControlFlow.Holds (fun x => Pending phases e x.1 x.2) (Preread.Sound phases e)) := by
  obtain ⟨rc, s⟩ := x
  simp only [Session.preread_pass]
  split
  · exact hx
  rename_i hagain
  have hagain : rc = NGX_AGAIN := not_not.mp hagain
  subst hagain
  have hs : Session.Sound phases s := hx.sound (by simp) (by simp)
  have hprepared : (s.prepare_buffer conf).2.calls = s.calls ∧
      (s.prepare_buffer conf).2.phase_handler = s.phase_handler := prepare_buffer_calls s
  obtain ⟨hcalls, hposition⟩ := hprepared
  generalize s.prepare_buffer conf = prepared at hcalls hposition ⊢
  obtain ⟨room, s₁⟩ := prepared
  have hs₁ : Session.Sound phases s₁ := hs.congr hcalls hposition
  have he : (declared phases)[s₁.phase_handler]? = some e := hposition ▸ hx.entry
  -- Every other way out of the loop has a code that moves nothing.
  have hleft : ∀ rc, rc ≠ NGX_OK → rc ≠ NGX_DECLINED → ∀ s' : Session H, s'.calls = s₁.calls →
      s'.phase_handler = s₁.phase_handler → Pending phases e rc s' := by
    intro rc hok hdeclined s' hcalls' hposition'
    exact (hs₁.pending he hok hdeclined).congr hcalls' hposition'
  dsimp only
  cases room with
  | none => exact hleft _ (by decide) (by decide) _ rfl rfl
  | some size =>
    dsimp only
    split
    · exact hleft _ (by decide) (by decide) _ rfl rfl
    split
    · exact hleft _ (by decide) (by decide) _ rfl rfl
    split
    · split
      · exact hleft _ (by decide) (by decide) _ rfl rfl
      · exact hs₁.congr rfl rfl
    split
    · exact hleft _ (by decide) (by decide) _ rfl rfl
    · have hrecv : Session.Sound phases (s₁.recv size).2 := hs₁.congr rfl rfl
      refine (hrecv.call_handler he hblock hhandler).bind fun r hr => ?_
      exact hr

theorem Sound.preread_start {s : Session H} (hs : Sound phases s) {e : Entry Phase (Option H)}
    (he : (declared phases)[s.phase_handler]? = some e) (hblock : e.block ≠ .content)
    {ph : PhaseHandler H} (hhandler : ph.handler = e.item) :
    (s.preread_start handle ph).Safe fun r => Pending phases e r.1 r.2 := by
  simp only [Session.preread_start]
  split
  · exact hs.pending he (by simp) (by simp)
  split
  · exact hs.pending he (by simp) (by simp)
  · exact hs.call_handler he hblock hhandler

theorem Pending.preread_end {e : Entry Phase (Option H)} {rc : Int} {s : Session H}
    (hs : Pending phases e rc s) {ph : PhaseHandler H} (hnext : ph.next = e.next) :
    Sound phases (s.preread_end ph rc).2 := by
  simp only [Session.preread_end]
  by_cases hok : rc = NGX_OK
  · subst hok
    rw [if_pos rfl, hnext]
    exact hs.sound_next.congr rfl rfl
  rw [if_neg hok]
  by_cases hdeclined : rc = NGX_DECLINED
  · subst hdeclined
    rw [if_pos rfl]
    exact hs.sound_succ.congr rfl rfl
  rw [if_neg hdeclined]
  have hsound := hs.sound hok hdeclined
  split
  · exact hsound.congr rfl rfl
  · exact hsound.congr rfl rfl

theorem Sound.preread_phase {s : Session H} (hs : Sound phases s) {e : Entry Phase (Option H)}
    (he : (declared phases)[s.phase_handler]? = some e) (hblock : e.block ≠ .content)
    {ph : PhaseHandler H} (hhandler : ph.handler = e.item) (hnext : ph.next = e.next) (fuel : Nat) :
    (s.preread_phase handle conf fuel ph).Safe fun r => Sound phases r.2 := by
  refine (hs.preread_start he hblock hhandler).bind fun start hstart => ?_
  have hloop : (loop (preread_pass handle conf ph) fuel start).Safe (Preread.Sound phases e) :=
    loop_safe (fun x : Int × Session H => Pending phases e x.1 x.2) (Preread.Sound phases e)
      (fun x hx => hx.preread_pass hblock hhandler) hstart
  refine hloop.bind fun left hleft => ?_
  cases left with
  | suspended s => exact hleft
  | left rc s => exact hleft.preread_end hnext

theorem Sound.content_phase {s : Session H} (hs : Sound phases s) {e : Entry Phase (Option H)}
    (he : (declared phases)[s.phase_handler]? = some e) (hblock : e.block = .content) :
    Sound phases (s.content_phase conf).2 := by
  have hitem : e.item = none := by
    have hmem := item_mem_of_mem_layout (List.mem_of_getElem? he)
    rw [hblock] at hmem
    exact List.mem_singleton.mp hmem
  have hcontent : ∀ client, Sound phases
      { s with client := client, calls := ⟨s.phase_handler, none, none⟩ :: s.calls } := by
    intro client
    refine ⟨.cons hs.path he .stay, ?_, ?_, hs.inside⟩
    · exact List.forall_mem_cons.mpr ⟨⟨e, he, hitem.symm⟩, hs.handlers⟩
    · exact List.forall_mem_cons.mpr ⟨fun _ => rfl, hs.silent⟩
  simp only [Session.content_phase]
  split
  · split
    · exact hs.congr rfl rfl
    · exact hcontent _
  · exact hcontent _

/-- Every checker keeps the session sound. -/
theorem Sound.check {s : Session H} (hs : Sound phases s) {e : Entry Phase (Option H)}
    (he : (declared phases)[s.phase_handler]? = some e) (fuel : Nat) :
    (s.check handle conf fuel (toPhaseHandler e)).Safe fun r => Sound phases r.2 := by
  cases hblock : e.block with
  | content =>
    simp only [Session.check, toPhaseHandler, hblock]
    exact hs.content_phase he hblock
  | preread =>
    simp only [Session.check, toPhaseHandler, hblock]
    exact hs.preread_phase he (by simp [hblock]) rfl rfl fuel
  | _ =>
    simp only [Session.check, toPhaseHandler, hblock]
    exact hs.generic_phase he (by simp [hblock]) rfl rfl

/-- `ngx_nsoc_core_run_phases` reads the table only, and keeps the session sound. -/
theorem Sound.run_phases {s : Session H} (hs : Sound phases s) (hengine : Built phases engine)
    (fuel : Nat) : (s.run_phases handle conf engine fuel).Safe (Sound phases) := by
  refine loop_safe (Sound phases) (Sound phases) (fun s hs => ?_) hs
  obtain ⟨e, he⟩ := hs.exists_entry
  simp only [run_pass, hengine.entry_eq he, bind_ok]
  refine (hs.check he fuel).bind fun r hr => ?_
  split
  · exact hr
  · exact hr

theorem Reachable.sound {s : Session H} (hs : Reachable handle conf engine s)
    (hengine : Built phases engine) : Sound phases s := by
  induction hs with
  | created client => exact sound_created client
  | disturbed _ client ih => exact ih.congr rfl rfl
  | run fuel _ _ hrun ih => exact (ih.run_phases hengine fuel).of_eq_ok hrun

end Session

end ngx_nsoc.core
