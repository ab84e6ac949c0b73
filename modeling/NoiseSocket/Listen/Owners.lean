import NoiseSocket.Listen.Lookup

open Exec Exec.Result

namespace ngx_nsoc

variable {C : Type}

/-- The socket is the one that is bound for the directive. -/
structure Listen.Owns (l : Listen C) (ls : Listening C) : Prop where
  family : ls.family = l.family
  type : ls.type = l.type
  addr : ls.addr = l.addr
  port : ls.port = l.port
  wildcard : ls.wildcard = l.wildcard

theorem owns_socket (l : Listen C) (addrs : List (Listen C)) : l.Owns (socket l addrs) :=
  ⟨rfl, rfl, rfl, rfl, rfl⟩

theorem forall₂_owns_alone (bound : List (Listen C)) :
    List.Forall₂ Listen.Owns bound (bound.map fun x => socket x [x]) := by
  induction bound with
  | nil => exact .nil
  | cons x bound ih => exact .cons (owns_socket x [x]) ih

/-- The directives among `addrs` that have a socket of their own. -/
def Owners (addrs owners : List (Listen C)) : Prop :=
  owners.Nodup ∧ ∀ l, l ∈ owners ↔
    l ∈ addrs ∧ (l.bind = true ∨ l.wildcard = true ∨ ∀ x ∈ addrs, x.wildcard = false)

theorem Distinct.nodup {listen : List (Listen C)} (h : Distinct listen) : listen.Nodup := by
  refine List.Pairwise.imp (fun hnot heq => ?_) h
  subst heq
  exact hnot ⟨rfl, rfl, rfl, rfl⟩

/-- The sockets of a port. -/
theorem optimize_port_owners {port : ConfPort C} (hne : port.addrs ≠ [])
    (hone : ∀ x ∈ port.addrs, ∀ y ∈ port.addrs, x.wildcard = true → y.wildcard = true → x = y)
    (hnodup : port.addrs.Nodup) : ∃ created, optimize_port port = ok created ∧
      ∃ owners, Owners port.addrs owners ∧ List.Forall₂ Listen.Owns owners created := by
  have hsorted := sort_pairwise_rank port.addrs
  have hperm : (Insertion.sort cmp_conf_addrs port.addrs).Perm port.addrs := Insertion.sort_perm _
  simp only [optimize_port]
  generalize Insertion.sort cmp_conf_addrs port.addrs = sorted at hsorted hperm ⊢
  have hmem : ∀ x, x ∈ port.addrs ↔ x ∈ sorted := fun x => hperm.mem_iff.symm
  have hdup : sorted.Nodup := hperm.nodup_iff.mpr hnodup
  obtain rfl | ⟨front, last, rfl⟩ := sorted.eq_nil_or_concat
  · exact absurd hperm.symm.eq_nil hne
  rw [List.concat_eq_append] at hsorted hdup hmem ⊢
  obtain ⟨hfront, -, hrank⟩ := List.pairwise_append.mp hsorted
  have hlast : last ∈ port.addrs := (hmem last).mpr (by simp)
  have hget : (front ++ [last])[(front ++ [last]).length - 1]? = some last := by simp
  simp only [hget]
  by_cases hwild : last.wildcard = true
  · have hplain : ∀ x ∈ front, x.wildcard = false := by
      intro x hx
      by_contra hxwild
      have heq := hone x ((hmem x).mpr (List.mem_append_left _ hx)) last hlast (by simpa using hxwild) hwild
      exact absurd heq ((List.nodup_append.mp hdup).2.2 x hx last (by simp))
    obtain ⟨bound, unbound, rfl, hbound, hunbound⟩ := split_bound hfront hplain
    rw [if_pos hwild]
    refine ⟨_, optimize_wildcard_eq last hbound hunbound, bound ++ [last], ⟨?_, fun l => ?_⟩, ?_⟩
    · rw [List.append_assoc] at hdup
      exact hdup.sublist (List.Sublist.append_left (List.sublist_append_right _ _) _)
    · have hnot : ¬ ∀ x ∈ port.addrs, x.wildcard = false := by
        intro hall
        rw [hall last hlast] at hwild
        cases hwild
      rw [hmem l]
      simp only [List.mem_append, List.mem_singleton, hnot, or_false]
      constructor
      · rintro (hl | rfl)
        · exact ⟨.inl (.inl hl), .inl (hbound l hl)⟩
        · exact ⟨.inr rfl, .inr hwild⟩
      · rintro ⟨(hl | hl) | rfl, hflag⟩
        · exact .inl hl
        · -- Neither bound nor a wildcard.
          simp [hunbound l hl, hplain l (List.mem_append_right _ hl)] at hflag
        · exact .inr rfl
    · exact List.rel_append (forall₂_owns_alone bound) (.cons (owns_socket last _) .nil)
  · have hplain : ∀ x ∈ front ++ [last], x.wildcard = false := by
      intro x hx
      obtain hx | hx := List.mem_append.mp hx
      · have hle := hrank x hx last (by simp)
        grind [Listen.rank]
      · simpa [List.mem_singleton.mp hx] using hwild
    have hall : ∀ x ∈ port.addrs, x.wildcard = false := fun x hx => hplain x ((hmem x).mp hx)
    rw [if_neg hwild]
    refine ⟨_, optimize_plain _, front ++ [last], ⟨hdup, fun l => ?_⟩, forall₂_owns_alone _⟩
    rw [hmem l]
    exact ⟨fun hl => ⟨hl, .inr (.inr hall)⟩, fun hl => hl.1⟩

/-- The sockets of all ports. -/
theorem optimize_servers_owners {ports : List (ConfPort C)} (hne : ∀ port ∈ ports, port.addrs ≠ [])
    (hone : ∀ port ∈ ports, ∀ x ∈ port.addrs, ∀ y ∈ port.addrs,
      x.wildcard = true → y.wildcard = true → x = y)
    (hnodup : ∀ port ∈ ports, port.addrs.Nodup)
    (happart : ports.Pairwise fun port port' => ∀ l ∈ port.addrs, l ∉ port'.addrs) :
    ∃ created, optimize_servers ports = ok created ∧
      ∃ owners, List.Forall₂ Listen.Owns owners created ∧ owners.Nodup ∧
        ∀ l, l ∈ owners ↔ ∃ port ∈ ports, l ∈ port.addrs ∧
          (l.bind = true ∨ l.wildcard = true ∨ ∀ x ∈ port.addrs, x.wildcard = false) := by
  induction ports with
  | nil => exact ⟨[], rfl, [], .nil, List.nodup_nil, fun l => by simp⟩
  | cons port ports ih =>
    obtain ⟨hne, hnes⟩ := List.forall_mem_cons.mp hne
    obtain ⟨hone, hones⟩ := List.forall_mem_cons.mp hone
    obtain ⟨hnodup, hnodups⟩ := List.forall_mem_cons.mp hnodup
    obtain ⟨hother, happart⟩ := List.pairwise_cons.mp happart
    obtain ⟨first, hfirst, owners, ⟨hdup, howners⟩, howns⟩ := optimize_port_owners hne hone hnodup
    obtain ⟨rest, hrest, owners', howns', hdup', howners'⟩ := ih hnes hones hnodups happart
    refine ⟨first ++ rest, by simp [optimize_servers, hfirst, hrest], owners ++ owners',
      List.rel_append howns howns', List.nodup_append.mpr ⟨hdup, hdup', ?_⟩, fun l => ?_⟩
    · rintro l hl _ hl' rfl
      obtain ⟨port', hport', hmem, -⟩ := (howners' l).mp hl'
      exact hother port' hport' l ((howners l).mp hl).1 hmem
    · rw [List.mem_append, howners l, howners' l, List.exists_mem_cons_iff]

/-- The directives `owners` have the sockets `created`: those that are explicitly bound, the wildcards, and
all for a port without a wildcard. -/
structure Bound (listen owners : List (Listen C)) (created : List (Listening C)) : Prop where
  owns : List.Forall₂ Listen.Owns owners created
  nodup : owners.Nodup
  mem : ∀ l, l ∈ owners ↔ l ∈ listen ∧ (l.bind = true ∨ l.wildcard = true ∨
    ∀ x ∈ listen, x.port = l.port → x.type = l.type → x.family = l.family → x.wildcard = false)

section

variable {listen : List (Listen C)} (hdistinct : Distinct listen)
  (hwildcard : ∀ l ∈ listen, l.wildcard = true → l.addr = INADDR_ANY)

include hdistinct hwildcard

theorem listening_bound :
    ∃ created owners, listening listen = ok created ∧ Bound listen owners created := by
  have hports := grouped_add_ports listen
  have hmem : ∀ port ∈ listen.foldl add_ports [], ∀ x, x ∈ port.addrs ↔ x ∈ listen ∧ port.Holds x := by
    intro port hport x
    rw [hports.addrs port hport, List.mem_filter, decide_eq_true_eq]
  have hone : ∀ port ∈ listen.foldl add_ports [], ∀ x ∈ port.addrs, ∀ y ∈ port.addrs,
      x.wildcard = true → y.wildcard = true → x = y := by
    intro port hport x hx y hy hxwild hywild
    obtain ⟨hx, hxport, hxtype, hxfamily⟩ := (hmem port hport x).mp hx
    obtain ⟨hy, hyport, hytype, hyfamily⟩ := (hmem port hport y).mp hy
    exact hdistinct.eq_of_same hx hy ⟨hxtype.trans hytype.symm, hxfamily.trans hyfamily.symm,
      (hwildcard x hx hxwild).trans (hwildcard y hy hywild).symm, hxport.trans hyport.symm⟩
  have hnodup : ∀ port ∈ listen.foldl add_ports [], port.addrs.Nodup := by
    intro port hport
    rw [hports.addrs port hport]
    exact hdistinct.nodup.filter _
  have happart : (listen.foldl add_ports []).Pairwise
      fun port port' => ∀ l ∈ port.addrs, l ∉ port'.addrs := by
    refine hports.distinct.imp_of_mem fun hport hport' happart l hl hl' => ?_
    exact happart l ((hmem _ hport l).mp hl).2 ((hmem _ hport' l).mp hl').2
  obtain ⟨created, hcreated, owners, howns, hdup, howners⟩ :=
    optimize_servers_owners hports.nonempty hone hnodup happart
  refine ⟨created, owners, hcreated, howns, hdup, fun l => ?_⟩
  rw [howners l]
  constructor
  · rintro ⟨port, hport, hl, hflag⟩
    obtain ⟨hlisten, hholds⟩ := (hmem port hport l).mp hl
    refine ⟨hlisten, hflag.imp id (Or.imp id fun hall x hx hxport hxtype hxfamily => ?_)⟩
    refine hall x ((hmem port hport x).mpr ⟨hx, ?_⟩)
    exact ⟨hxport.trans hholds.1, hxtype.trans hholds.2.1, hxfamily.trans hholds.2.2⟩
  · rintro ⟨hlisten, hflag⟩
    obtain ⟨port, hport, hholds⟩ := hports.covered l hlisten
    refine ⟨port, hport, (hmem port hport l).mpr ⟨hlisten, hholds⟩,
      hflag.imp id (Or.imp id fun hall x hx => ?_)⟩
    obtain ⟨hx, hxholds⟩ := (hmem port hport x).mp hx
    exact hall x hx (hxholds.1.trans hholds.1.symm) (hxholds.2.1.trans hholds.2.1.symm)
      (hxholds.2.2.trans hholds.2.2.symm)

end

end ngx_nsoc
