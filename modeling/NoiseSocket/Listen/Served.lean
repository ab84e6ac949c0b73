import NoiseSocket.Listen.Owners
import NoiseSocket.Listen.Parameters

open Exec Exec.Result

namespace ngx_nsoc

open ngx_nsoc_upstream (bytes ngx_strcmp)

variable {C : Type}

theorem exists_of_forall₂ {α β : Type} {R : α → β → Prop} {l : List α} {l' : List β}
    (h : List.Forall₂ R l l') {a : α} (ha : a ∈ l) : ∃ b ∈ l', R a b := by
  induction h with
  | nil => cases ha
  | @cons a' b l l' hab _ ih =>
    obtain rfl | ha := List.mem_cons.mp ha
    · exact ⟨b, List.mem_cons_self, hab⟩
    · obtain ⟨b', hb', hrel⟩ := ih ha
      exact ⟨b', List.mem_cons_of_mem _ hb', hrel⟩

theorem pairwise_of_forall₂ {α β : Type} {R : α → β → Prop} {P : α → α → Prop} {Q : β → β → Prop}
    {l : List α} {l' : List β} (h : List.Forall₂ R l l') (hl : l.Pairwise P)
    (himp : ∀ {a a' b b'}, R a b → R a' b' → P a a' → Q b b') : l'.Pairwise Q := by
  induction h with
  | nil => exact .nil
  | @cons a b l l' hab htail ih =>
    obtain ⟨ha, hl⟩ := List.pairwise_cons.mp hl
    refine List.pairwise_cons.mpr ⟨fun b' hb' => ?_, ih hl⟩
    obtain ⟨a', ha', hrel⟩ := exists_of_forall₂ htail.flip hb'
    exact himp hab hrel (ha a' ha')

/-- Two sockets that cannot both be bound. -/
def Listening.same (ls ls' : Listening C) : Prop :=
  ls.type = ls'.type ∧ ls.family = ls'.family ∧ ls.addr = ls'.addr ∧ ls.port = ls'.port

section

variable {listen owners : List (Listen C)} {created : List (Listening C)} {conn : LocalAddr}

theorem LocalAddr.OfPort.eq_of_addr {x y : Listen C} (hx : conn.OfPort x) (hy : conn.OfPort y)
    (hdistinct : Distinct listen) (hxmem : x ∈ listen) (hymem : y ∈ listen) (haddr : x.addr = y.addr) :
    x = y := by
  obtain ⟨hxfamily, hxtype, hxport⟩ := hx
  obtain ⟨hyfamily, hytype, hyport⟩ := hy
  exact hdistinct.eq_of_same hxmem hymem ⟨hxtype.trans hytype.symm, hxfamily.trans hyfamily.symm, haddr,
    hxport.trans hyport.symm⟩

/-- A directive for the address of the connection has a socket exactly when there is one for the address. -/
theorem Bound.mem_iff (h : Bound listen owners created) (hdistinct : Distinct listen) {l : Listen C}
    (hl : l ∈ listen) (hport : conn.OfPort l) (haddr : l.addr = conn.addr) :
    l ∈ owners ↔ ∃ ls ∈ created,
      (ls.family = conn.family ∧ ls.type = conn.type ∧ ls.port = conn.port) ∧ ls.addr = conn.addr := by
  obtain ⟨hfamily, htype, hportno⟩ := hport
  constructor
  · intro howner
    obtain ⟨ls, hls, howns⟩ := exists_of_forall₂ h.owns howner
    exact ⟨ls, hls, ⟨howns.family.trans hfamily, howns.type.trans htype, howns.port.trans hportno⟩,
      howns.addr.trans haddr⟩
  · rintro ⟨ls, hls, ⟨hlsfamily, hlstype, hlsport⟩, hlsaddr⟩
    obtain ⟨x, hx, howns⟩ := exists_of_forall₂ h.owns.flip hls
    have hxport : conn.OfPort x :=
      ⟨howns.family.symm.trans hlsfamily, howns.type.symm.trans hlstype, howns.port.symm.trans hlsport⟩
    have hlport : conn.OfPort l := ⟨hfamily, htype, hportno⟩
    have heq : x = l := hxport.eq_of_addr hlport hdistinct ((h.mem x).mp hx).1 hl
      (howns.addr.symm.trans (hlsaddr.trans haddr.symm))
    rwa [← heq]

/-- A connection to the address of a directive comes to a socket. -/
theorem Bound.delivered (h : Bound listen owners created) (hdistinct : Distinct listen) {l : Listen C}
    (hl : l ∈ listen) (hport : conn.OfPort l) (haddr : l.addr = conn.addr) :
    ∃ ls, Delivered created conn ls := by
  by_cases howner : l ∈ owners
  · obtain ⟨ls, hls, hlsport, hlsaddr⟩ := (h.mem_iff hdistinct hl hport haddr).mp howner
    exact ⟨ls, hls, hlsport, .inl hlsaddr⟩
  · -- The port has a wildcard, whose socket gets what has no socket of its own.
    have hnone := mt (h.mem_iff hdistinct hl hport haddr).mpr howner
    have hnot := mt (h.mem l).mpr howner
    push Not at hnot
    obtain ⟨w, hw, hwport, hwtype, hwfamily, hwild⟩ := (hnot hl).2.2
    have hwild : w.wildcard = true := by simpa using hwild
    obtain ⟨ls, hls, howns⟩ := exists_of_forall₂ h.owns ((h.mem w).mpr ⟨hw, .inr (.inl hwild)⟩)
    obtain ⟨hfamily, htype, hportno⟩ := hport
    refine ⟨ls, hls, ?_, .inr ⟨howns.wildcard.trans hwild, fun other hother hotherport hotheraddr => ?_⟩⟩
    · exact ⟨(howns.family.trans hwfamily).trans hfamily, (howns.type.trans hwtype).trans htype,
        (howns.port.trans hwport).trans hportno⟩
    · exact hnone ⟨other, hother, hotherport, hotheraddr⟩

theorem Bound.bound_once (h : Bound listen owners created) (hdistinct : Distinct listen) :
    created.Pairwise fun ls ls' => ¬ ls.same ls' := by
  have hpairwise : owners.Pairwise fun x y => ¬ x.same y := by
    refine h.nodup.imp_of_mem fun hx hy hne hsame => hne ?_
    exact hdistinct.eq_of_same ((h.mem _).mp hx).1 ((h.mem _).mp hy).1 hsame
  refine pairwise_of_forall₂ h.owns hpairwise fun howns howns' hnot hsame => hnot ?_
  obtain ⟨htype, hfamily, haddr, hport⟩ := hsame
  exact ⟨howns.type.symm.trans (htype.trans howns'.type), howns.family.symm.trans (hfamily.trans howns'.family),
    howns.addr.symm.trans (haddr.trans howns'.addr), howns.port.symm.trans (hport.trans howns'.port)⟩

end

section

variable {listen : List (Listen C)} (hdistinct : Distinct listen)
  (hwildcard : ∀ l ∈ listen, l.wildcard = true → l.addr = INADDR_ANY)

include hdistinct hwildcard

/-- The directive that a connection gets. -/
theorem init_connection_chosen {created : List (Listening C)} (hcreated : listening listen = ok created)
    {conn : LocalAddr} {ls : Listening C} (hls : Delivered created conn ls) :
    ∃ x ∈ listen, conn.OfPort x ∧ init_connection ls (some conn.addr) = ok (some x.conf) ∧
      (x.addr = conn.addr ∨
        (x.wildcard = true ∧ ∀ y ∈ listen, conn.OfPort y → y.addr ≠ conn.addr)) := by
  obtain ⟨created', hcreated', hserves⟩ := listening_spec hdistinct hwildcard
  obtain rfl : created = created' := Result.ok.inj (hcreated.symm.trans hcreated')
  obtain ⟨port, hport, w, hw, others, rfl, hothers, -, hall⟩ := hserves ls hls.mem
  have hmem : ∀ x, x ∈ port.addrs ↔ x ∈ listen ∧ port.Holds x := by
    intro x
    rw [(grouped_add_ports listen).addrs port hport, List.mem_filter, decide_eq_true_eq]
  obtain ⟨hwlisten, hwport, hwtype, hwfamily⟩ := (hmem w).mp hw
  obtain ⟨hfamily, htype, hportno⟩ := hls.port
  simp only [socket] at hfamily htype hportno
  have hholds : ∀ x, port.Holds x ↔ conn.OfPort x := by
    intro x
    simp only [LocalAddr.OfPort, ConfPort.Holds, ← hfamily, ← htype, ← hportno, hwport, hwtype, hwfamily]
    tauto
  rw [init_connection_socket]
  cases hfind : others.find? fun x => decide (x.addr = conn.addr) with
  | some x =>
    obtain ⟨hx, hxport⟩ := (hmem x).mp (hothers x (List.mem_of_find?_eq_some hfind)).1
    exact ⟨x, hx, (hholds x).mp hxport, rfl, .inl (by simpa using List.find?_some hfind)⟩
  | none =>
    refine ⟨w, hwlisten, (hholds w).mp ⟨hwport, hwtype, hwfamily⟩, rfl, ?_⟩
    by_cases hwaddr : w.addr = conn.addr
    · exact .inl hwaddr
    obtain haddr | ⟨hwild, hnone⟩ := hls.addr
    · exact absurd haddr hwaddr
    refine .inr ⟨hwild, fun y hy hyport hyaddr => ?_⟩
    obtain rfl | hyo | hsocket := hall hwild y ((hmem y).mpr ⟨hy, (hholds y).mpr hyport⟩)
    · exact hwaddr hyaddr
    · simpa [hyaddr] using List.find?_eq_none.mp hfind y hyo
    · exact hnone _ hsocket hyport hyaddr

end

/-- The directive is for the port of the connection, and `u` is its address. -/
def ListenDirective.OfPort (core : ListenCore) (d : ListenDirective C) (conn : LocalAddr) (u : ListenUrl) :
    Prop :=
  core.parse_url d.url = some u ∧ u.family = conn.family ∧ d.type = conn.type ∧ u.port = conn.port

/-- The directive is for the local address of the connection. -/
def ListenDirective.At (core : ListenCore) (d : ListenDirective C) (conn : LocalAddr) : Prop :=
  ∃ u, d.OfPort core conn u ∧ u.addr = conn.addr

/-- The directive is for every address on the port of the connection. -/
def ListenDirective.Wildcard (core : ListenCore) (d : ListenDirective C) (conn : LocalAddr) : Prop :=
  ∃ u, d.OfPort core conn u ∧ u.wildcard = true

/-- What the sockets `created` do for the text of the directives. -/
structure Served (core : ListenCore) (directives : List (ListenDirective C)) (listen : List (ListenOpt C))
    (created : List (Listening C)) : Prop where
  /-- No address is bound twice. -/
  bound_once : created.Pairwise fun ls ls' => ¬ ls.same ls'
  /-- Every directive gets its connections. -/
  reached : ∀ d ∈ directives, ∀ conn, d.At core conn → ∃ ls, Delivered created conn ls
  /-- They belong to its server, and they are protected if and only if its text says `noise`. -/
  selected : ∀ d ∈ directives, ∀ conn, d.At core conn → ∀ ls, Delivered created conn ls →
    init_connection ls (some conn.addr) = ok (some ⟨d.ctx, d.noise_on⟩)
  /-- A connection to another address gets there through a directive for all addresses only. -/
  fallback : ∀ conn ls, Delivered created conn ls → (∀ d ∈ directives, ¬ d.At core conn) →
    ∃ d ∈ directives, d.Wildcard core conn ∧
      init_connection ls (some conn.addr) = ok (some ⟨d.ctx, d.noise_on⟩)
  /-- No socket for datagrams is to be protected. -/
  stream : ∀ d ∈ directives, d.noise_on = true → d.type = .stream
  /-- An address has a socket of its own if a parameter of the socket asks for it, or if the port has no
  directive for all addresses besides. -/
  own : ∀ d ∈ directives, ∀ conn, d.At core conn →
    ((∃ ls ∈ created, (ls.family = conn.family ∧ ls.type = conn.type ∧ ls.port = conn.port) ∧
        ls.addr = conn.addr) ↔
      (∃ value ∈ d.values, binds conn.family value) ∨ d.Wildcard core conn ∨
        ∀ d' ∈ directives, ¬ d'.Wildcard core conn)
  /-- The options of a socket are not those of a directive without one. -/
  plain : ∀ l ∈ listen, l.Plain core ∨ ∃ ls ∈ created, l.toListen.Owns ls

section

variable {core : ListenCore} {d : ListenDirective C} {l : ListenOpt C} {conn : LocalAddr}

theorem ListenDirective.Accepted.ofPort_iff (h : d.Accepted core l) {u : ListenUrl} :
    d.OfPort core conn u ↔ u = ⟨l.family, l.addr, l.port, l.wildcard⟩ ∧ conn.OfPort l.toListen := by
  unfold ListenDirective.OfPort LocalAddr.OfPort
  rw [h.url, ← h.type, Option.some_inj]
  constructor
  · rintro ⟨rfl, hport⟩
    exact ⟨rfl, hport⟩
  · rintro ⟨rfl, hport⟩
    exact ⟨rfl, hport⟩

theorem ListenDirective.Accepted.at_iff (h : d.Accepted core l) :
    d.At core conn ↔ conn.OfPort l.toListen ∧ l.addr = conn.addr := by
  simp [ListenDirective.At, h.ofPort_iff, and_assoc]

theorem ListenDirective.Accepted.wildcard_iff (h : d.Accepted core l) :
    d.Wildcard core conn ↔ conn.OfPort l.toListen ∧ l.wildcard = true := by
  simp [ListenDirective.Wildcard, h.ofPort_iff, and_assoc]

theorem ListenDirective.Accepted.conf (h : d.Accepted core l) :
    l.toListen.conf = ⟨d.ctx, d.noise_on⟩ := by
  rw [Listen.conf, h.ctx, h.noise_on]

end

/-- For every accepted sequence of `listen` directives the sockets serve the text of each of them. -/
theorem listen_directives_served {core : ListenCore} (hcore : core.Documented)
    {directives : List (ListenDirective C)} {listen : List (ListenOpt C)}
    (h : core_listen_directives core [] directives = .ok listen) :
    ∃ created, listening (listen.map ListenOpt.toListen) = ok created ∧
      Served core directives listen created := by
  obtain ⟨hdistinct, added, hadded, haccepted⟩ := core_listen_directives_spec h List.Pairwise.nil
  obtain rfl : listen = added := hadded
  have hof : ∀ d ∈ directives, ∃ l ∈ listen, d.Accepted core l := fun d => exists_of_forall₂ haccepted
  have hfrom : ∀ l ∈ listen, ∃ d ∈ directives, d.Accepted core l := fun l =>
    exists_of_forall₂ haccepted.flip
  have hwildcard : ∀ l ∈ listen.map ListenOpt.toListen, l.wildcard = true → l.addr = INADDR_ANY := by
    intro x hx hwild
    obtain ⟨l, hl, rfl⟩ := List.mem_map.mp hx
    obtain ⟨d, -, hd⟩ := hfrom l hl
    exact hcore _ _ hd.url hwild
  obtain ⟨created, owners, hcreated, hbound⟩ := listening_bound hdistinct hwildcard
  have hmem : ∀ l ∈ listen, l.toListen ∈ listen.map ListenOpt.toListen := fun l =>
    List.mem_map_of_mem
  refine ⟨created, hcreated, hbound.bound_once hdistinct, ?_, ?_, ?_, ?_, ?_, ?_⟩
  · intro d hd conn hat
    obtain ⟨l, hl, haccept⟩ := hof d hd
    obtain ⟨hport, haddr⟩ := haccept.at_iff.mp hat
    exact hbound.delivered hdistinct (hmem l hl) hport haddr
  · intro d hd conn hat ls hls
    obtain ⟨l, hl, haccept⟩ := hof d hd
    obtain ⟨hport, haddr⟩ := haccept.at_iff.mp hat
    obtain ⟨x, hx, hxport, hinit, hxaddr⟩ :=
      init_connection_chosen hdistinct hwildcard hcreated hls
    obtain hxaddr | ⟨-, hnone⟩ := hxaddr
    · obtain rfl : x = l.toListen :=
        hxport.eq_of_addr hport hdistinct hx (hmem l hl) (hxaddr.trans haddr.symm)
      rw [hinit, haccept.conf]
    · exact absurd haddr (hnone _ (hmem l hl) hport)
  · intro conn ls hls hnone
    obtain ⟨x, hx, hxport, hinit, hxaddr⟩ :=
      init_connection_chosen hdistinct hwildcard hcreated hls
    obtain ⟨l, hl, rfl⟩ := List.mem_map.mp hx
    obtain ⟨d, hd, haccept⟩ := hfrom l hl
    obtain hxaddr | ⟨hwild, -⟩ := hxaddr
    · exact absurd (haccept.at_iff.mpr ⟨hxport, hxaddr⟩) (hnone d hd)
    · exact ⟨d, hd, haccept.wildcard_iff.mpr ⟨hxport, hwild⟩, by rw [hinit, haccept.conf]⟩
  · intro d hd hnoise
    obtain ⟨l, -, haccept⟩ := hof d hd
    rw [← haccept.type]
    exact haccept.stream (haccept.noise_on.trans hnoise)
  · intro d hd conn hat
    obtain ⟨l, hl, haccept⟩ := hof d hd
    obtain ⟨hport, haddr⟩ := haccept.at_iff.mp hat
    have hothers : (∀ x ∈ listen.map ListenOpt.toListen, x.port = l.port → x.type = l.type →
        x.family = l.family → x.wildcard = false) ↔ ∀ d' ∈ directives, ¬ d'.Wildcard core conn := by
      obtain ⟨hfamily, htype, hportno⟩ := hport
      constructor
      · intro hall d' hd' hwild
        obtain ⟨l', hl', haccept'⟩ := hof d' hd'
        obtain ⟨⟨hfamily', htype', hportno'⟩, hwild⟩ := haccept'.wildcard_iff.mp hwild
        have hplain := hall _ (hmem l' hl') (hportno'.trans hportno.symm) (htype'.trans htype.symm)
          (hfamily'.trans hfamily.symm)
        rw [hwild] at hplain
        cases hplain
      · intro hnone x hx hxport hxtype hxfamily
        obtain ⟨l', hl', rfl⟩ := List.mem_map.mp hx
        obtain ⟨d', hd', haccept'⟩ := hfrom l' hl'
        have hnot := mt haccept'.wildcard_iff.mpr (hnone d' hd')
        exact Bool.eq_false_iff.mpr fun hwild => hnot
          ⟨⟨hxfamily.trans hfamily, hxtype.trans htype, hxport.trans hportno⟩, hwild⟩
    rw [← hbound.mem_iff hdistinct (hmem l hl) hport haddr, hbound.mem, haccept.bind, hothers,
      haccept.wildcard_iff, ← hport.1, and_iff_right (hmem l hl), and_iff_right hport]
  · intro l hl
    obtain ⟨d, -, haccept⟩ := hfrom l hl
    cases hbind : l.bind with
    | false => exact .inl (haccept.plain hbind)
    | true => 
      obtain ⟨ls, hls, howns⟩ := exists_of_forall₂ hbound.owns
        ((hbound.mem l.toListen).mpr ⟨hmem l hl, .inl hbind⟩)
      exact .inr ⟨ls, hls, howns⟩

/-- The answers for a port, for two addresses and for a number. -/
def three_core : ListenCore where
  parse_url := fun url =>
    if url = bytes ['4', '4', '3'] then some ⟨.inet, INADDR_ANY, 443, true⟩
    else if url = bytes ['1', '0', '.', '0', '.', '0', '.', '1', ':', '4', '4', '3'] then
      some ⟨.inet, 167772161, 443, false⟩
    else if url = bytes ['1', '0', '.', '0', '.', '0', '.', '2', ':', '4', '4', '3'] then
      some ⟨.inet, 167772162, 443, false⟩
    else none
  atoi := fun text => if text = bytes ['6', '4'] then some 64 else none
  parse_time := fun _ => none
  NGX_LISTEN_BACKLOG := 511

/-- A server for all addresses with `noise`, and two addresses without, of which one is bound explicitly. -/
def three_directives : List (ListenDirective Nat) :=
  [⟨0, bytes ['4', '4', '3'], [bytes ['n', 'o', 'i', 's', 'e']]⟩,
    ⟨1, bytes ['1', '0', '.', '0', '.', '0', '.', '1', ':', '4', '4', '3'], []⟩,
    ⟨2, bytes ['1', '0', '.', '0', '.', '0', '.', '2', ':', '4', '4', '3'],
      [bytes ['b', 'a', 'c', 'k', 'l', 'o', 'g', '=', '6', '4']]⟩]

/-- What they configure. -/
def three_opts : List (ListenOpt Nat) :=
  [⟨⟨.inet, .stream, INADDR_ANY, 443, 0, false, true, true⟩, true, false, 0, false, 0, 0, 0, 511⟩,
    ⟨⟨.inet, .stream, 167772161, 443, 1, false, false, false⟩, true, false, 0, false, 0, 0, 0, 511⟩,
    ⟨⟨.inet, .stream, 167772162, 443, 2, true, false, false⟩, true, false, 0, false, 0, 0, 0, 64⟩]

theorem three_core_documented : three_core.Documented := by
  intro url u hurl hwild
  simp only [three_core] at hurl
  split_ifs at hurl
  · cases hurl
    rfl
  · cases hurl
    cases hwild
  · cases hurl
    cases hwild

theorem listen_directives_served_of_three :
    ∃ created, listening (three_opts.map ListenOpt.toListen) = ok created ∧
      Served three_core three_directives three_opts created :=
  listen_directives_served three_core_documented (by rfl)

end ngx_nsoc
