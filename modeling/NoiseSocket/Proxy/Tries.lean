import NoiseSocket.NoiseC.Pattern
import NoiseSocket.Proxy.Account.Calls

open Exec Exec.Result

namespace ngx_nsoc_upstream

/-- The only peer of an upstream without a backup group. -/
def Upstream.Single (us : Upstream) : Prop := ∃ n, us.shape .primary = some (true, n)

theorem Upstream.Ready.group_of_single {us : Upstream} (h : us.Ready) {g : Group} {n : Nat}
    (hg : us.shape g = some (true, n)) : us.Single := by
  cases g with
  | primary => exact ⟨n, hg⟩
  | backup =>
    obtain ⟨peers, hpeers, hsingle, -⟩ := Upstream.peers_of_shape hg
    have hfalse := h.backup peers hpeers
    rw [hsingle] at hfalse
    cases hfalse

/-- Without a backup group every group is the primary one. -/
theorem Upstream.Ready.single_of_group {us : Upstream} (h : us.Ready) (hsingle : us.Single) {g : Group}
    {single : Bool} {n : Nat} (hg : us.shape g = some (single, n)) : single = true := by
  obtain ⟨m, hm⟩ := hsingle
  cases g with
  | primary =>
    rw [hm] at hg
    cases hg
    rfl
  | backup =>
    obtain ⟨peers, hpeers, htrue, -⟩ := Upstream.peers_of_shape hm
    cases hpeers
    obtain ⟨peers, hpeers, -⟩ := Upstream.peers_of_shape hg
    have hnone := (h.single htrue).2
    have hsome : us.backup = some peers := hpeers
    rw [hnone] at hsome
    cases hsome

end ngx_nsoc_upstream

namespace ngx_nsoc_proxy

open ngx_nsoc ngx_nsoc_upstream

variable {S : Type}

/-- A later attempt is not for the same peer, and not for a primary peer behind a backup. -/
def After (later earlier : Group × Nat) : Prop :=
  later ≠ earlier ∧ (later.1 = .primary → earlier.1 = .primary)

/-- The peers that a session has tried: the bits of the current group, and the tries that
are left of `tries`. -/
structure Account.Tried (us : Upstream) (tries : Nat) (call : Call) (a : Account) : Prop where
  order : a.attempts.Pairwise After
  bits : call = .finalize ∨ call = .ended ∨
    ((a.data.group = .primary → ∀ x ∈ a.attempts, x.1 = .primary) ∧
      (¬ us.Single → ∀ x ∈ a.attempts, x.1 = a.data.group → marked a.data.tried x.2 = true))
  tries : a.freed.length + a.tries ≤ tries
  positive : call = .connect ∨ a.sockaddr.isSome = true → 1 ≤ a.tries
  single : us.Single → a.freed = [] ∨ a.tries = 0

section

variable {us us' : Upstream} {tries : Nat} {call call' : Call} {a a' : Account}

theorem Account.Tried.congr (h : a.Tried us tries call) (hshape : us'.shape = us.shape) :
    a.Tried us' tries call := by
  have hsingle : us'.Single ↔ us.Single := by
    unfold Upstream.Single
    rw [hshape]
  exact ⟨h.order, by rw [hsingle]; exact h.bits, h.tries, h.positive, by rw [hsingle]; exact h.single⟩

/-- The next peer of a session comes behind all that it has tried. -/
theorem Account.Tried.select (h : a.Tried us tries .connect) (hus : us.Ready)
    (hs : a.Sound us .connect) {at_ : Group × Nat} {tried : List Nat}
    (hmarks : at_.1 = a.data.group →
      (∃ n, us.shape at_.1 = some (true, n)) ∨ Marks a.data.tried tried at_.2)
    (hswitch : at_.1 ≠ a.data.group → a.data.group = .primary ∧ at_.1 = .backup ∧
      us.primary.single = false ∧ marked tried at_.2 = true) :
    (∀ x ∈ a.attempts, After at_ x) ∧
      (at_.1 = .primary → ∀ x ∈ at_ :: a.attempts, x.1 = .primary) ∧
      (¬ us.Single → ∀ x ∈ at_ :: a.attempts, x.1 = at_.1 → marked tried x.2 = true) := by
  obtain ⟨hprimary, hbits⟩ : (a.data.group = .primary → ∀ x ∈ a.attempts, x.1 = .primary) ∧
      (¬ us.Single → ∀ x ∈ a.attempts, x.1 = a.data.group → marked a.data.tried x.2 = true) :=
    (h.bits.resolve_left nofun).resolve_left nofun
  have htries : 1 ≤ a.tries := h.positive (.inl rfl)
  have hfresh : us.Single → a.attempts = [] := by
    intro hsingle
    have hnone : a.sockaddr = none := hs.holds
    obtain hfreed | hzero := h.single hsingle
    · rw [hs.attempts, hnone, hfreed]
      rfl
    · omega
  by_cases hgroup : at_.1 = a.data.group
  · have hprimary' : at_.1 = .primary → ∀ x ∈ a.attempts, x.1 = .primary := by
      rw [hgroup]
      exact hprimary
    refine ⟨?_, ?_, ?_⟩
    · intro x hx
      refine ⟨?_, fun h => hprimary' h x hx⟩
      rintro rfl
      have hnot : ¬ us.Single := by
        intro hsingle
        rw [hfresh hsingle] at hx
        cases hx
      obtain ⟨n, hn⟩ | hmarks := hmarks hgroup
      · exact hnot (hus.group_of_single hn)
      · have hmarked := hbits hnot _ hx hgroup
        rw [hmarks.untried] at hmarked
        cases hmarked
    · intro hp x hx
      obtain rfl | hx := List.mem_cons.mp hx
      · exact hp
      · exact hprimary' hp x hx
    · intro hnot x hx hxg
      obtain ⟨n, hn⟩ | hmarks := hmarks hgroup
      · exact absurd (hus.group_of_single hn) hnot
      · rw [hmarks.marked]
        obtain rfl | hx := List.mem_cons.mp hx
        · simp
        · rw [hbits hnot x hx (hxg.trans hgroup), Bool.or_true]
  · obtain ⟨hold, hnew, -, hmarked⟩ := hswitch hgroup
    have hothers : ∀ x ∈ a.attempts, x.1 ≠ at_.1 := by
      intro x hx
      rw [hprimary hold x hx, hnew]
      exact nofun
    refine ⟨?_, ?_, ?_⟩
    · intro x hx
      refine ⟨fun h => hothers x hx (by rw [h]), fun _ => hprimary hold x hx⟩
    · intro hp
      rw [hnew] at hp
      cases hp
    · intro hnot x hx hxg
      obtain rfl | hx := List.mem_cons.mp hx
      · exact hmarked
      · exact absurd hxg (hothers x hx)

theorem Moves.tried (h : Moves us us' call call' a a') (hus : us.Ready) (hs : a.Sound us call)
    (ht : a.Tried us tries call) : a'.Tried us' tries call' := by
  suffices hold : a'.Tried us tries call' from hold.congr h.step.shape
  obtain ⟨hstep, hleads, hholds, htries⟩ := h
  have hbits : call = .finalize ∨ call = .ended → call' = .finalize ∨ call' = .ended := by
    rintro (rfl | rfl)
    · exact .inr hleads
    · exact hleads.elim
  cases hstep with
  | keep hkeeps =>
    refine ⟨ht.order, ?_, ht.tries, ?_, ht.single⟩
    · obtain hcall | hcall | hrest := ht.bits
      · exact (hbits (.inl hcall)).imp_right .inl
      · exact (hbits (.inr hcall)).imp_right .inl
      · exact .inr (.inr hrest)
    · rintro (hcall | hsome)
      · have hne := htries hcall
        omega
      · exact ht.positive (.inr hsome)
  | busy hnone hkeeps hgroup =>
    refine ⟨ht.order, ?_, ht.tries, ?_, ht.single⟩
    · exact (ended_of_none hleads (hnone ▸ hs.holds) (hnone ▸ hholds)).imp_right .inl
    · rintro (hcall | hsome)
      · have hne := htries hcall
        have hpos : 0 < a.tries := Nat.pos_of_ne_zero hne
        exact hpos
      · simp [hnone] at hsome
  | @select at_ tried hnone hconnects hlength hmarks hswitch =>
    obtain rfl : call = .connect := connect_of_some hleads (hnone ▸ hs.holds) hholds
    obtain ⟨hafter, hprimary, hmarked⟩ := ht.select hus hs hmarks hswitch
    exact ⟨List.pairwise_cons.mpr ⟨hafter, ht.order⟩, .inr (.inr ⟨hprimary, hmarked⟩), ht.tries,
      fun _ => ht.positive (.inl rfl), ht.single⟩
  | @free at_ single n hsome hfrees hshape =>
    have hpos : 1 ≤ a.tries := ht.positive (.inr (by rw [hsome]; rfl))
    refine ⟨ht.order, ?_, ?_, ?_, ?_⟩
    · obtain hcall | hcall | hrest := ht.bits
      · exact (hbits (.inl hcall)).imp_right .inl
      · exact (hbits (.inr hcall)).imp_right .inl
      · exact .inr (.inr hrest)
    · have htotal := ht.tries
      simp only [List.length_cons, triesLeft]
      split <;> omega
    · rintro (hcall | hsome)
      · have hne := htries hcall
        exact Nat.pos_of_ne_zero hne
      · cases hsome
    · intro hsingle
      right
      rw [hus.single_of_group hsingle hshape]
      rfl

end

end ngx_nsoc_proxy
