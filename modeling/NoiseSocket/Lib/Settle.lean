import NoiseSocket.Lib.Loop

namespace Exec

open Result

section

variable {A B S : Type}

/-- From some number of loop passes on, the outcome of `f` is `r`. -/
def Settles (f : Nat → Result A) (r : Result A) : Prop :=
  ∃ bound, ∀ fuel, bound ≤ fuel → f fuel = r

/-- Enough loop passes give an outcome, which further passes do not change. -/
def Terminates (f : Nat → Result A) : Prop := ∃ r, r ≠ div ∧ Settles f r

theorem settles_const (r : Result A) : Settles (fun _ => r) r := ⟨0, fun _ _ => rfl⟩

theorem Settles.unique {f : Nat → Result A} {r r' : Result A} (h : Settles f r)
    (h' : Settles f r') : r = r' := by
  obtain ⟨bound, hbound⟩ := h
  obtain ⟨bound', hbound'⟩ := h'
  rw [← hbound (max bound bound') (by omega), ← hbound' (max bound bound') (by omega)]

/-- An outcome that is not divergence decides termination. -/
theorem Settles.terminates_iff {f : Nat → Result A} {r : Result A} (h : Settles f r) :
    Terminates f ↔ r ≠ div := by
  constructor
  · rintro ⟨r', hne, h'⟩
    rwa [h.unique h']
  · exact fun hne => ⟨r, hne, h⟩

theorem Settles.bind {f : Nat → Result A} {g : Nat → A → Result B} {a : A} {r : Result B}
    (hf : Settles f (ok a)) (hg : Settles (fun fuel => g fuel a) r) :
    Settles (fun fuel => f fuel >>= g fuel) r := by
  obtain ⟨bound, hbound⟩ := hf
  obtain ⟨bound', hbound'⟩ := hg
  refine ⟨max bound bound', ?_⟩
  intro fuel hfuel
  simp only [hbound fuel (by omega), bind_ok, hbound' fuel (by omega)]

theorem Settles.bind_fault {f : Nat → Result A} {g : Nat → A → Result B}
    (hf : Settles f fault) : Settles (fun fuel => f fuel >>= g fuel) fault := by
  obtain ⟨bound, hbound⟩ := hf
  refine ⟨bound, ?_⟩
  intro fuel hfuel
  simp only [hbound fuel hfuel, Result.bind_fault]

theorem Settles.bind_div {f : Nat → Result A} {g : Nat → A → Result B}
    (hf : Settles f div) : Settles (fun fuel => f fuel >>= g fuel) div := by
  obtain ⟨bound, hbound⟩ := hf
  refine ⟨bound, ?_⟩
  intro fuel hfuel
  simp only [hbound fuel hfuel, Result.bind_div]

/-- The same for a loop whose body has loops of its own: the passes of the loop
and those inside its body are counted apart. -/
def LoopSettles (body : Nat → S → Result (ControlFlow S A)) (s : S) (r : Result A) : Prop :=
  ∃ bound passes, ∀ fuel k, bound ≤ fuel → passes ≤ k → loop (body fuel) k s = r

variable {body : Nat → S → Result (ControlFlow S A)} {s next : S}

theorem LoopSettles.settles {r : Result A} (h : LoopSettles body s r) :
    Settles (fun fuel => loop (body fuel) fuel s) r := by
  obtain ⟨bound, passes, hloop⟩ := h
  exact ⟨max bound passes, fun fuel hfuel => hloop fuel fuel (by omega) (by omega)⟩

theorem LoopSettles.of_done {value : A} (h : Settles (fun fuel => body fuel s) (ok (.done value))) :
    LoopSettles body s (ok value) := by
  obtain ⟨bound, hbound⟩ := h
  exact ⟨bound, 1, fun fuel k hfuel hk => loop_of_done (by omega) (hbound fuel hfuel)⟩

theorem LoopSettles.of_cont {r : Result A}
    (h : Settles (fun fuel => body fuel s) (ok (.cont next))) (hnext : LoopSettles body next r) :
    LoopSettles body s r := by
  obtain ⟨bound, hbound⟩ := h
  obtain ⟨bound', passes, hloop⟩ := hnext
  refine ⟨max bound bound', passes + 1, ?_⟩
  intro fuel k hfuel hk
  obtain ⟨k, rfl⟩ : ∃ j, k = j + 1 := ⟨k - 1, by omega⟩
  rw [loop_of_cont (hbound fuel (by omega))]
  exact hloop fuel k (by omega) (by omega)

theorem LoopSettles.of_fault (h : Settles (fun fuel => body fuel s) fault) :
    LoopSettles body s fault := by
  obtain ⟨bound, hbound⟩ := h
  exact ⟨bound, 1, fun fuel k hfuel hk => loop_of_fault (by omega) (hbound fuel hfuel)⟩

theorem LoopSettles.of_div (h : Settles (fun fuel => body fuel s) div) :
    LoopSettles body s div := by
  obtain ⟨bound, hbound⟩ := h
  refine ⟨bound, 1, ?_⟩
  intro fuel k hfuel hk
  obtain ⟨k, rfl⟩ : ∃ j, k = j + 1 := ⟨k - 1, by omega⟩
  have hdiv : body fuel s = div := hbound fuel hfuel
  rw [loop_succ, hdiv, Result.bind_div]

end

end Exec
