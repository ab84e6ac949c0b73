import NoiseSocket.Lib.Blocks
import NoiseSocket.Phases

open Exec Exec.Result Blocks

namespace ngx_nsoc

namespace Phase

/-- The value of the enumeration constant. -/
def index : Phase → Nat
  | post_accept => 0
  | preaccess => 1
  | access => 2
  | protect => 3
  | preread => 4
  | content => 5
  | log => 6

instance : Preorder Phase := Preorder.lift index

theorem lt_iff (p q : Phase) : p < q ↔ p.index < q.index := Iff.rfl

theorem le_iff (p q : Phase) : p ≤ q ↔ p.index ≤ q.index := Iff.rfl

theorem pairwise_before_log : before_log.Pairwise (· < ·) := by
  simp [before_log, lt_iff, index]

theorem mem_before_log {p : Phase} : p ∈ before_log ↔ p ≤ content := by
  cases p <;> simp [before_log, le_iff, index]

end Phase

section

variable {H : Type}

/-- What is to be visited in a phase, in this order. -/
def block (phases : Phase → List H) : Phase → List (Option H)
  | .content => [none]
  | .log => []
  | p => (phases p).reverse.map some

/-- What is to be visited, phase by phase. -/
def declared (phases : Phase → List H) : List (Entry Phase (Option H)) :=
  layout (block phases) Phase.before_log 0

/-- The entry of the table of the phase engine. -/
def toPhaseHandler (e : Entry Phase (Option H)) : PhaseHandler H :=
  match e.block with
  | .content => ⟨.content_phase, none, 0⟩
  | .preread => ⟨.preread_phase, e.item, e.next⟩
  | _ => ⟨.generic_phase, e.item, e.next⟩

theorem block_ne_nil_iff {phases : Phase → List H} {p : Phase} (hp : p < .content) :
    block phases p ≠ [] ↔ phases p ≠ [] := by
  cases p <;> simp_all [block, Phase.lt_iff, Phase.index]

/-- Only the content phase has an entry without a handler. -/
theorem exists_handler {phases : Phase → List H} {p : Phase} {item : Option H}
    (hitem : item ∈ block phases p) (hp : p ≠ .content) : ∃ h, item = some h := by
  cases p with
  | content => exact absurd rfl hp
  | log => cases hitem
  | _ =>
    obtain ⟨h, -, rfl⟩ := List.mem_map.mp hitem
    exact ⟨h, rfl⟩

namespace PhaseEngine

theorem push_eq {engine : PhaseEngine H} (entry : PhaseHandler H)
    (hroom : engine.handlers.length < engine.allocated) :
    engine.push entry = ok { engine with handlers := engine.handlers ++ [entry] } := by
  simp [push, hroom]

theorem fill_eq (checker : Checker) (next : Nat) (h : List H) (engine : PhaseEngine H)
    (hroom : engine.handlers.length + h.length ≤ engine.allocated) :
    engine.fill checker next h = ok { engine with
      handlers := engine.handlers ++ h.reverse.map fun handler => ⟨checker, some handler, next⟩ } := by
  simp only [fill]
  replace hroom : engine.handlers.length + h.reverse.length ≤ engine.allocated := by simpa using hroom
  generalize h.reverse = handlers at hroom ⊢
  induction handlers generalizing engine with
  | nil => simp
  | cons handler rest ih =>
    simp only [List.length_cons] at hroom
    rw [List.foldlM_cons, push_eq _ (by omega), bind_ok, ih _ (by simp; omega)]
    simp

/-- One pass of the outer loop lays the block of its phase out. -/
theorem init_phase_eq (phases : Phase → List H) {p : Phase} (hp : p ∈ Phase.before_log)
    (engine : PhaseEngine H) (n : Nat)
    (hroom : engine.handlers.length + (block phases p).length ≤ engine.allocated) :
    engine.init_phase phases n p = ok
      ({ engine with handlers := engine.handlers ++ (layout (block phases) [p] n).map toPhaseHandler },
        n + (block phases p).length) := by
  cases p with
  | log => simp [Phase.before_log] at hp
  | content =>
    simp only [block, List.length_singleton] at hroom
    simp [init_phase, push_eq _ hroom, layout, block, toPhaseHandler]
  | _ =>
    simp only [block, List.length_map, List.length_reverse] at hroom
    simp only [init_phase, fill_eq _ _ _ _ hroom, bind_ok, layout, block, List.map_map,
      List.length_map, List.length_reverse, List.append_nil]
    rfl

theorem init_phases_eq (phases : Phase → List H) {ps : List Phase} (hps : ps ⊆ Phase.before_log)
    (engine : PhaseEngine H) (n : Nat)
    (hroom : engine.handlers.length + (layout (block phases) ps n).length ≤ engine.allocated) :
    init_phases phases ps engine n = ok { engine with
      handlers := engine.handlers ++ (layout (block phases) ps n).map toPhaseHandler } := by
  induction ps generalizing engine n with
  | nil => simp [init_phases, layout]
  | cons p ps ih =>
    obtain ⟨hp, hps⟩ := List.cons_subset.mp hps
    simp only [layout, List.length_append, List.length_map] at hroom
    rw [init_phases, init_phase_eq phases hp engine n (by omega), bind_ok]
    rw [ih hps _ _ (by simp [layout]; omega)]
    simp [layout]

end PhaseEngine

/-- The table fits into what has been allocated for it. -/
theorem length_declared_le (phases : Phase → List H) :
    (declared phases).length ≤ 1 + (Phase.before_log.map fun i => (phases i).length).sum := by
  rw [declared, length_layout]
  simp [Phase.before_log, block]
  omega

/-- The table of the phase engine is what is to be visited, phase by phase. -/
theorem init_phase_handlers_eq (phases : Phase → List H) :
    init_phase_handlers phases true = ok (some
      ⟨1 + (Phase.before_log.map fun i => (phases i).length).sum,
        (declared phases).map toPhaseHandler⟩) := by
  have hroom := length_declared_le phases
  have heq := PhaseEngine.init_phases_eq phases (List.Subset.refl _)
    ⟨1 + (Phase.before_log.map fun i => (phases i).length).sum, []⟩ 0
    (by simpa [declared] using hroom)
  simp only [init_phase_handlers, heq, not_true_eq_false, if_false, bind_ok, List.nil_append]
  rfl

/-- A table that `ngx_nsoc_init_phase_handlers` has built. -/
structure Built (phases : Phase → List H) (engine : PhaseEngine H) : Prop where
  handlers : engine.handlers = (declared phases).map toPhaseHandler
  length_le : engine.handlers.length ≤ engine.allocated

theorem Built.of_init {phases : Phase → List H} {alloc : Bool} {engine : PhaseEngine H}
    (hinit : init_phase_handlers phases alloc = ok (some engine)) : Built phases engine := by
  cases alloc with
  | false => cases hinit
  | true =>
    rw [init_phase_handlers_eq] at hinit
    cases hinit
    exact ⟨rfl, by simpa using length_declared_le phases⟩

theorem Built.entry_eq {phases : Phase → List H} {engine : PhaseEngine H}
    (hengine : Built phases engine) {i : Nat} {e : Entry Phase (Option H)}
    (he : (declared phases)[i]? = some e) : engine.entry i = ok (some (toPhaseHandler e)) := by
  simp [PhaseEngine.entry, hengine.handlers, he]

end

end ngx_nsoc
