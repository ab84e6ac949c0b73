import Mathlib.Data.List.Induction
import Mathlib.Data.List.Pairwise
import NoiseSocket.Listen

open Exec Exec.Result

namespace ngx_nsoc

variable {C : Type}

/-- A directive for the family, the type and the port of `port`. -/
def ConfPort.Holds (port : ConfPort C) (l : Listen C) : Prop :=
  l.port = port.port ∧ l.type = port.type ∧ l.family = port.family

instance (port : ConfPort C) (l : Listen C) : Decidable (port.Holds l) :=
  inferInstanceAs (Decidable (_ ∧ _ ∧ _))

/-- The directives of a configuration that `ngx_nsoc_core_listen` has accepted. -/
def Distinct (listen : List (Listen C)) : Prop :=
  listen.Pairwise fun l l' => ¬ l.same l'

theorem core_listen_distinct {listen listen' : List (Listen C)} {ls : Listen C}
    (hlisten : Distinct listen) (hls : core_listen listen ls = some listen') : Distinct listen' := by
  simp only [core_listen] at hls
  split at hls
  · cases hls
  split at hls
  · cases hls
  rename_i hnone
  cases hls
  refine List.pairwise_append.mpr ⟨hlisten, List.pairwise_singleton _ _, ?_⟩
  intro als hals l hl hsame
  obtain rfl := List.mem_singleton.mp hl
  exact hnone ⟨als, hals, hsame⟩

theorem Listen.same_symm {l l' : Listen C} (hsame : l.same l') : l'.same l :=
  ⟨hsame.1.symm, hsame.2.1.symm, hsame.2.2.1.symm, hsame.2.2.2.symm⟩

theorem Distinct.eq_of_same {listen : List (Listen C)} (hlisten : Distinct listen) {l l' : Listen C}
    (hl : l ∈ listen) (hl' : l' ∈ listen) (hsame : l.same l') : l = l' := by
  have hsymm : Std.Symm fun l l' : Listen C => ¬ l.same l' :=
    ⟨fun _ _ hnot hsame => hnot (Listen.same_symm hsame)⟩
  by_contra hne
  exact List.Pairwise.forall hlisten hl hl' hne hsame

/-- The ports of the directives: each has the directives for it, in their order. -/
structure Grouped (listen : List (Listen C)) (ports : List (ConfPort C)) : Prop where
  addrs : ∀ port ∈ ports, port.addrs = listen.filter fun l => decide (port.Holds l)
  nonempty : ∀ port ∈ ports, port.addrs ≠ []
  covered : ∀ l ∈ listen, ∃ port ∈ ports, port.Holds l
  distinct : ports.Pairwise fun port port' => ∀ l, port.Holds l → ¬ port'.Holds l

/-- `ngx_nsoc_add_ports` adds the directive to the port that it is for, or it adds a port. -/
theorem add_ports_cases (ports : List (ConfPort C)) (l : Listen C) :
    (∃ before port behind, ports = before ++ port :: behind ∧ port.Holds l ∧
      add_ports ports l = before ++ { port with addrs := port.addrs ++ [l] } :: behind) ∨
    ((∀ port ∈ ports, ¬ port.Holds l) ∧
      add_ports ports l = ports ++ [⟨l.family, l.type, l.port, [l]⟩]) := by
  induction ports with
  | nil => exact .inr ⟨fun _ hport => absurd hport List.not_mem_nil, rfl⟩
  | cons port ports ih =>
    by_cases hport : port.Holds l
    · exact .inl ⟨[], port, ports, rfl, hport, if_pos hport⟩
    · have hstep : add_ports (port :: ports) l = port :: add_ports ports l := if_neg hport
      obtain ⟨before, found, behind, hports, hfound, heq⟩ | ⟨hnone, heq⟩ := ih
      · exact .inl ⟨port :: before, found, behind, by rw [hports]; rfl, hfound, by rw [hstep, heq]; rfl⟩
      · exact .inr ⟨List.forall_mem_cons.mpr ⟨hport, hnone⟩, by rw [hstep, heq]; rfl⟩

theorem filter_holds_append (port : ConfPort C) (listen : List (Listen C)) (l : Listen C) :
    (listen ++ [l]).filter (fun l => decide (port.Holds l)) =
      listen.filter (fun l => decide (port.Holds l)) ++ if port.Holds l then [l] else [] := by
  rw [List.filter_append, List.filter_singleton]
  simp

theorem Grouped.add {listen : List (Listen C)} {ports : List (ConfPort C)}
    (hports : Grouped listen ports) (l : Listen C) : Grouped (listen ++ [l]) (add_ports ports l) := by
  obtain ⟨haddrs, hnonempty, hcovered, hdistinct⟩ := hports
  -- A port that the directive is not for keeps its addresses.
  have hother : ∀ port ∈ ports, ¬ port.Holds l →
      port.addrs = (listen ++ [l]).filter fun l => decide (port.Holds l) := by
    intro port hport hnot
    rw [filter_holds_append, if_neg hnot, List.append_nil]
    exact haddrs port hport
  obtain ⟨before, port, behind, rfl, hport, heq⟩ | ⟨hnone, heq⟩ := add_ports_cases ports l
  · have hmem : port ∈ before ++ port :: behind := List.mem_append_right _ List.mem_cons_self
    obtain ⟨hbefore, hrest, hacross⟩ := List.pairwise_append.mp hdistinct
    obtain ⟨hbehind, hpairwise⟩ := List.pairwise_cons.mp hrest
    rw [heq]
    refine ⟨?_, ?_, ?_, ?_⟩
    · intro p hp
      obtain hp | hp := List.mem_append.mp hp
      · exact hother p (List.mem_append_left _ hp) fun h => hacross p hp port List.mem_cons_self l h hport
      obtain rfl | hp := List.mem_cons.mp hp
      · have hfilter := filter_holds_append port listen l
        rw [if_pos hport, ← haddrs port hmem] at hfilter
        exact hfilter.symm
      · exact hother p (List.mem_append_right _ (List.mem_cons_of_mem _ hp)) (hbehind p hp l hport)
    · intro p hp
      obtain hp | hp := List.mem_append.mp hp
      · exact hnonempty p (List.mem_append_left _ hp)
      obtain rfl | hp := List.mem_cons.mp hp
      · simp
      · exact hnonempty p (List.mem_append_right _ (List.mem_cons_of_mem _ hp))
    · intro l' hl'
      obtain hl' | hl' := List.mem_append.mp hl'
      · obtain ⟨p, hp, hholds⟩ := hcovered l' hl'
        obtain hp | hp := List.mem_append.mp hp
        · exact ⟨p, List.mem_append_left _ hp, hholds⟩
        obtain rfl | hp := List.mem_cons.mp hp
        · exact ⟨_, List.mem_append_right _ List.mem_cons_self, hholds⟩
        · exact ⟨p, List.mem_append_right _ (List.mem_cons_of_mem _ hp), hholds⟩
      · obtain rfl := List.mem_singleton.mp hl'
        exact ⟨_, List.mem_append_right _ List.mem_cons_self, hport⟩
    · refine List.pairwise_append.mpr ⟨hbefore, List.pairwise_cons.mpr ⟨hbehind, hpairwise⟩, ?_⟩
      intro p hp q hq
      obtain rfl | hq := List.mem_cons.mp hq
      · exact hacross p hp port List.mem_cons_self
      · exact hacross p hp q (List.mem_cons_of_mem _ hq)
  · rw [heq]
    refine ⟨?_, ?_, ?_, ?_⟩
    · intro p hp
      obtain hp | hp := List.mem_append.mp hp
      · exact hother p hp (hnone p hp)
      · obtain rfl := List.mem_singleton.mp hp
        rw [filter_holds_append, if_pos ⟨rfl, rfl, rfl⟩, List.self_eq_append_left, List.filter_eq_nil_iff]
        intro l' hl'
        obtain ⟨p, hp, hport, htype, hfamily⟩ := hcovered l' hl'
        simp only [decide_eq_true_eq]
        rintro ⟨hport', htype', hfamily'⟩
        exact hnone p hp ⟨hport'.symm.trans hport, htype'.symm.trans htype, hfamily'.symm.trans hfamily⟩
    · intro p hp
      obtain hp | hp := List.mem_append.mp hp
      · exact hnonempty p hp
      · obtain rfl := List.mem_singleton.mp hp
        simp
    · intro l' hl'
      obtain hl' | hl' := List.mem_append.mp hl'
      · obtain ⟨p, hp, hholds⟩ := hcovered l' hl'
        exact ⟨p, List.mem_append_left _ hp, hholds⟩
      · obtain rfl := List.mem_singleton.mp hl'
        exact ⟨_, List.mem_append_right _ List.mem_cons_self, rfl, rfl, rfl⟩
    · refine List.pairwise_append.mpr ⟨hdistinct, List.pairwise_singleton _ _, ?_⟩
      intro p hp q hq l' hl' hq'
      obtain rfl := List.mem_singleton.mp hq
      obtain ⟨hport, htype, hfamily⟩ := hl'
      obtain ⟨hport', htype', hfamily'⟩ := hq'
      exact hnone p hp ⟨hport'.symm.trans hport, htype'.symm.trans htype, hfamily'.symm.trans hfamily⟩

theorem grouped_nil : Grouped ([] : List (Listen C)) [] where
  addrs := fun _ hport => absurd hport List.not_mem_nil
  nonempty := fun _ hport => absurd hport List.not_mem_nil
  covered := fun _ hl => absurd hl List.not_mem_nil
  distinct := List.Pairwise.nil

theorem grouped_add_ports (listen : List (Listen C)) : Grouped listen (listen.foldl add_ports []) := by
  induction listen using List.reverseRecOn with
  | nil => exact grouped_nil
  | append_singleton listen l ih =>
    rw [List.foldl_concat]
    exact ih.add l

end ngx_nsoc
