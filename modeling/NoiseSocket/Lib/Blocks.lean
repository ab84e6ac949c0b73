import Mathlib.Algebra.Order.Ring.Int
import Mathlib.Data.List.Basic

namespace Blocks

/-- An entry of a table of blocks that are laid out one behind the other. `next` is
the position behind its block. -/
structure Entry (P A : Type) where
  block : P
  item : A
  next : Nat
deriving DecidableEq, Repr

/-- The blocks `ps` laid out from position `n` on. -/
def layout {P A : Type} (block : P → List A) : List P → Nat → List (Entry P A)
  | [], _ => []
  | p :: ps, n =>
    (block p).map (fun item => ⟨p, item, n + (block p).length⟩) ++
      layout block ps (n + (block p).length)

section

variable {P A : Type} {block : P → List A}

theorem length_layout (ps : List P) (n : Nat) :
    (layout block ps n).length = (ps.map fun p => (block p).length).sum := by
  induction ps generalizing n with
  | nil => simp [layout]
  | cons p ps ih => simp [layout, ih]

theorem block_mem_of_mem_layout {ps : List P} {n : Nat} {e : Entry P A}
    (he : e ∈ layout block ps n) : e.block ∈ ps := by
  induction ps generalizing n with
  | nil => cases he
  | cons p ps ih =>
    simp only [layout, List.mem_append, List.mem_map] at he
    obtain ⟨item, -, rfl⟩ | hrest := he
    · exact List.mem_cons_self
    · exact List.mem_cons_of_mem _ (ih hrest)

theorem item_mem_of_mem_layout {ps : List P} {n : Nat} {e : Entry P A}
    (he : e ∈ layout block ps n) : e.item ∈ block e.block := by
  induction ps generalizing n with
  | nil => cases he
  | cons p ps ih =>
    simp only [layout, List.mem_append, List.mem_map] at he
    obtain ⟨item, hitem, rfl⟩ | hrest := he
    · exact hitem
    · exact ih hrest

/-- Every block that is not empty has a position. -/
theorem exists_position {ps : List P} {p : P} (hp : p ∈ ps) (hne : block p ≠ []) (n : Nat) :
    ∃ (k : Nat) (e : Entry P A), (layout block ps n)[k]? = some e ∧ e.block = p := by
  have hmem : ∃ e : Entry P A, e ∈ layout block ps n ∧ e.block = p := by
    induction ps generalizing n with
    | nil => cases hp
    | cons q ps ih =>
      obtain rfl | hrest := List.mem_cons.mp hp
      · obtain ⟨item, hitem⟩ := List.exists_mem_of_ne_nil _ hne
        refine ⟨⟨p, item, n + (block p).length⟩, ?_, rfl⟩
        exact List.mem_append_left _ (List.mem_map_of_mem hitem)
      · obtain ⟨e, he, hblock⟩ := ih hrest (n + (block q).length)
        exact ⟨e, List.mem_append_right _ he, hblock⟩
  obtain ⟨e, he, hblock⟩ := hmem
  obtain ⟨k, hk⟩ := List.getElem?_of_mem he
  exact ⟨k, e, hk, hblock⟩

end

section Order

variable {P A : Type} [Preorder P] {block : P → List A}

theorem pairwise_layout {ps : List P} (hps : ps.Pairwise (· < ·)) (n : Nat) :
    (layout block ps n).Pairwise fun e e' => e.block ≤ e'.block := by
  induction ps generalizing n with
  | nil => exact List.Pairwise.nil
  | cons p ps ih =>
    obtain ⟨hp, hps⟩ := List.pairwise_cons.mp hps
    refine List.pairwise_append.mpr ⟨?_, ih hps _, ?_⟩
    · rw [List.pairwise_map]
      exact List.pairwise_of_forall fun _ _ => le_refl p
    · intro e he e' he'
      obtain ⟨item, -, rfl⟩ := List.mem_map.mp he
      exact (hp _ (block_mem_of_mem_layout he')).le

theorem block_le {ps : List P} (hps : ps.Pairwise (· < ·)) {n i j : Nat} {e e' : Entry P A}
    (he : (layout block ps n)[i]? = some e) (he' : (layout block ps n)[j]? = some e')
    (hle : i ≤ j) : e.block ≤ e'.block := by
  obtain ⟨hi, rfl⟩ := List.getElem?_eq_some_iff.mp he
  obtain ⟨hj, rfl⟩ := List.getElem?_eq_some_iff.mp he'
  obtain rfl | hlt := Nat.eq_or_lt_of_le hle
  · exact le_refl _
  · exact List.pairwise_iff_getElem.mp (pairwise_layout hps n) i j hi hj hlt

/-- The jump target of an entry: behind it the rest of its block, and nothing else, is
skipped. -/
theorem next_spec {ps : List P} (hps : ps.Pairwise (· < ·)) {n i : Nat} {e : Entry P A}
    (he : (layout block ps n)[i]? = some e) :
    ∃ next, e.next = n + next ∧ i < next ∧ next ≤ (layout block ps n).length ∧
      ∀ k e', i ≤ k → (layout block ps n)[k]? = some e' → (k < next ↔ e'.block = e.block) := by
  induction ps generalizing n i with
  | nil => simp [layout] at he
  | cons p ps ih =>
    obtain ⟨hp, hps⟩ := List.pairwise_cons.mp hps
    simp only [layout] at he ⊢
    by_cases hi : i < (block p).length
    · rw [List.getElem?_append_left (by simpa using hi), List.getElem?_map] at he
      obtain ⟨item, -, rfl⟩ := Option.map_eq_some_iff.mp he
      refine ⟨(block p).length, rfl, hi, by simp, ?_⟩
      intro k e' _ hk
      by_cases hlt : k < (block p).length
      · rw [List.getElem?_append_left (by simpa using hlt), List.getElem?_map] at hk
        obtain ⟨item', -, rfl⟩ := Option.map_eq_some_iff.mp hk
        exact iff_of_true hlt rfl
      · rw [List.getElem?_append_right (by simpa using hlt)] at hk
        have hmem := block_mem_of_mem_layout (List.mem_of_getElem? hk)
        exact iff_of_false hlt (hp _ hmem).ne'
    · rw [List.getElem?_append_right (by simpa using hi)] at he
      simp only [List.length_map] at he
      obtain ⟨next, hnext, hlt, hle, hskip⟩ := ih hps he
      refine ⟨(block p).length + next, by omega, by omega, by simp; omega, ?_⟩
      intro k e' hik hk
      rw [List.getElem?_append_right (by simp; omega)] at hk
      simp only [List.length_map] at hk
      rw [← hskip (k - (block p).length) e' (by omega) hk]
      omega

end Order

/-- What is done at an entry: it is tried again, the next entry follows, or the rest of
its block is skipped. -/
inductive Move where
  | stay
  | step
  | jump
deriving DecidableEq, Repr

/-- The position that follows. -/
def Entry.target {P A : Type} (e : Entry P A) (i : Nat) : Move → Nat
  | .stay => i
  | .step => i + 1
  | .jump => e.next

/-- The positions visited from the first one on, the latest first, and the one to be
visited next. -/
inductive Path {P A : Type} (table : List (Entry P A)) : List (Nat × Move) → Nat → Prop where
  | nil : Path table [] 0
  | cons {visits : List (Nat × Move)} {i : Nat} {e : Entry P A} (hpath : Path table visits i)
      (he : table[i]? = some e) (move : Move) : Path table ((i, move) :: visits) (e.target i move)

/-- A block is passed when one of its entries has skipped the rest, or when each of them
has let the next one follow. -/
def Passed {P A : Type} (table : List (Entry P A)) (visits : List (Nat × Move)) (p : P) : Prop :=
  (∃ k e, table[k]? = some e ∧ e.block = p ∧ (k, Move.jump) ∈ visits) ∨
    ∀ k e, table[k]? = some e → e.block = p → (k, Move.step) ∈ visits

section Path

variable {P A : Type} [Preorder P] {block : P → List A} {ps : List P}

theorem Entry.le_target (hps : ps.Pairwise (· < ·)) {i : Nat} {e : Entry P A}
    (he : (layout block ps 0)[i]? = some e) (move : Move) : i ≤ e.target i move := by
  obtain ⟨next, hnext, hlt, -⟩ := next_spec hps he
  cases move with
  | stay => exact le_refl i
  | step => exact Nat.le_succ i
  | jump => simp only [Entry.target]; omega

theorem Path.visited_le (hps : ps.Pairwise (· < ·)) {visits : List (Nat × Move)} {i : Nat}
    (hpath : Path (layout block ps 0) visits i) : ∀ v ∈ visits, v.1 ≤ i := by
  induction hpath with
  | nil => exact fun _ hv => absurd hv List.not_mem_nil
  | @cons visits i e hpath he move ih =>
    have hle := e.le_target hps he move
    intro v hv
    obtain rfl | hv := List.mem_cons.mp hv
    · exact hle
    · exact (ih v hv).trans hle

/-- Positions are visited in the order of the table. -/
theorem Path.pairwise (hps : ps.Pairwise (· < ·)) {visits : List (Nat × Move)} {i : Nat}
    (hpath : Path (layout block ps 0) visits i) :
    visits.Pairwise fun later earlier => earlier.1 ≤ later.1 := by
  induction hpath with
  | nil => exact List.Pairwise.nil
  | cons hpath he move ih => exact List.pairwise_cons.mpr ⟨hpath.visited_le hps, ih⟩

/-- Behind the current position an entry has either let the next one follow, or it
belongs to a block whose rest has been skipped. -/
theorem Path.behind (hps : ps.Pairwise (· < ·)) {visits : List (Nat × Move)} {i : Nat}
    (hpath : Path (layout block ps 0) visits i) {k : Nat} {e : Entry P A} (hk : k < i)
    (he : (layout block ps 0)[k]? = some e) :
    (k, Move.step) ∈ visits ∨
      ∃ k' e', (layout block ps 0)[k']? = some e' ∧ e'.block = e.block ∧ (k', Move.jump) ∈ visits := by
  induction hpath with
  | nil => omega
  | @cons visits i entry hpath hentry move ih =>
    by_cases hlt : k < i
    · obtain hstep | ⟨k', e', hk', hblock, hjump⟩ := ih hlt
      · exact .inl (List.mem_cons_of_mem _ hstep)
      · exact .inr ⟨k', e', hk', hblock, List.mem_cons_of_mem _ hjump⟩
    · cases move with
      | stay => exact absurd hk hlt
      | step =>
        obtain rfl : k = i := by simp only [Entry.target] at hk; omega
        exact .inl List.mem_cons_self
      | jump =>
        obtain ⟨next, hnext, -, -, hskip⟩ := next_spec hps hentry
        simp only [Entry.target] at hk
        have hblock : e.block = entry.block := (hskip k e (by omega) he).mp (by omega)
        exact .inr ⟨i, entry, hentry, hblock.symm, List.mem_cons_self⟩

/-- A path that has got to a later block has passed every block before it. -/
theorem Path.passed (hps : ps.Pairwise (· < ·)) {visits : List (Nat × Move)} {i : Nat}
    (hpath : Path (layout block ps 0) visits i) {e : Entry P A} {p : P}
    (he : (layout block ps 0)[i]? = some e) (hp : p < e.block) :
    Passed (layout block ps 0) visits p := by
  by_cases hjump : ∃ k e, (layout block ps 0)[k]? = some e ∧ e.block = p ∧ (k, Move.jump) ∈ visits
  · exact .inl hjump
  · refine .inr fun k entry hentry hblock => ?_
    have hlt : k < i := by
      by_contra hge
      exact absurd (block_le hps he hentry (by omega)) (hblock ▸ hp.not_ge)
    obtain hstep | ⟨k', e', hk', hblock', hmem⟩ := hpath.behind hps hlt hentry
    · exact hstep
    · exact absurd ⟨k', e', hk', hblock'.trans hblock, hmem⟩ hjump

/-- A move at an entry that is not of the last block stays in the table. -/
theorem Entry.target_lt (hps : ps.Pairwise (· < ·)) {i : Nat} {e : Entry P A}
    (he : (layout block ps 0)[i]? = some e) {q : P} (hq : q ∈ ps) (hne : block q ≠ [])
    (hlt : e.block < q) (move : Move) : e.target i move < (layout block ps 0).length := by
  obtain ⟨k, entry, hk, rfl⟩ := exists_position hq hne 0
  obtain ⟨hlen, -⟩ := List.getElem?_eq_some_iff.mp hk
  obtain ⟨next, hnext, hi, -, hskip⟩ := next_spec hps he
  have hik : i ≤ k := by
    by_contra hge
    exact absurd (block_le hps hk he (by omega)) hlt.not_ge
  have hle : next ≤ k := by
    by_contra hge
    exact absurd ((hskip k entry hik hk).mp (by omega)) hlt.ne'
  cases move <;> simp only [Entry.target] <;> omega

end Path

end Blocks
