import NoiseSocket.Listen.Optimize

open Exec Exec.Result

namespace ngx_nsoc

variable {C : Type}

/-- The configuration of a directive for the connections it gets. -/
def Listen.conf (l : Listen C) : AddrConf C := ⟨l.ctx, l.noise_on⟩

theorem find_addr_eq {addrs : List (InAddr C)} {before others : List (Listen C)} {w : Listen C}
    (haddrs : addrs = (before ++ (others ++ [w])).map Listen.entry) (addr : Nat) :
    (find_addr addrs addr before.length others.length >>= conf_at addrs) =
      ok ((others.find? fun l => decide (l.addr = addr)).getD w).conf := by
  induction others generalizing before with
  | nil =>
    have hget : addrs[before.length]? = some w.entry := by simp [haddrs]
    simp [find_addr, conf_at, hget, Listen.entry, Listen.conf]
  | cons l others ih =>
    have hget : addrs[before.length]? = some l.entry := by simp [haddrs]
    have hrest : addrs = ((before ++ [l]) ++ (others ++ [w])).map Listen.entry := by simp [haddrs]
    have hfind := ih hrest
    rw [List.length_append, List.length_singleton] at hfind
    by_cases haddr : l.addr = addr
    · simp [find_addr, conf_at, hget, haddr, Listen.entry, Listen.conf]
    · simp only [List.length_cons, find_addr, hget, Listen.entry, haddr, if_false, hfind,
        List.find?_cons, decide_false]

/-- A connection to a socket gets the directive for its address, or the last one. -/
theorem init_connection_socket (w : Listen C) (others : List (Listen C)) (addr : Nat) :
    init_connection (socket w (others ++ [w])) (some addr) =
      ok (some ((others.find? fun l => decide (l.addr = addr)).getD w).conf) := by
  have haddrs : (others ++ [w]).map Listen.entry = ([] ++ (others ++ [w])).map Listen.entry := rfl
  have hfind := find_addr_eq haddrs addr
  rw [List.length_nil] at hfind
  simp only [init_connection, socket, List.length_append, List.length_singleton,
    Nat.add_sub_cancel]
  cases others with
  | nil => simp [conf_at, Listen.entry, Listen.conf]
  | cons l others =>
    rw [if_pos (by simp)]
    obtain ⟨i, hi, hconf⟩ := bind_eq_ok_iff.mp hfind
    simp only [hi, bind_ok, hconf]

/-- The address and the port of a connection, with its family and the type of its socket. -/
structure LocalAddr where
  family : Family
  type : SockType
  addr : Nat
  port : Nat
deriving DecidableEq, Repr

/-- The directive is for the port of the connection. -/
def LocalAddr.OfPort (conn : LocalAddr) (l : Listen C) : Prop :=
  l.family = conn.family ∧ l.type = conn.type ∧ l.port = conn.port

/-- The socket that the kernel accepts a connection on: the one bound to its address, or
else the wildcard. -/
structure Delivered (created : List (Listening C)) (conn : LocalAddr) (ls : Listening C) : Prop where
  mem : ls ∈ created
  port : ls.family = conn.family ∧ ls.type = conn.type ∧ ls.port = conn.port
  addr : ls.addr = conn.addr ∨ (ls.wildcard = true ∧ ∀ other ∈ created,
    other.family = conn.family ∧ other.type = conn.type ∧ other.port = conn.port →
      other.addr ≠ conn.addr)

section

variable {listen : List (Listen C)} (hdistinct : Distinct listen)
  (hwildcard : ∀ l ∈ listen, l.wildcard = true → l.addr = INADDR_ANY)

include hdistinct hwildcard

/-- The sockets of a configuration. -/
theorem listening_spec : ∃ created, listening listen = ok created ∧
    ∀ ls ∈ created, ∃ port ∈ listen.foldl add_ports [], Serves port.addrs created ls := by
  have hports := grouped_add_ports listen
  have hsub : ∀ port ∈ listen.foldl add_ports [], ∀ x ∈ port.addrs, x ∈ listen ∧ port.Holds x := by
    intro port hport x hx
    rw [hports.addrs port hport, List.mem_filter] at hx
    exact ⟨hx.1, by simpa using hx.2⟩
  refine optimize_servers_spec hports.nonempty ?_ ?_
  · intro port hport x hx y hy hxwild hywild
    obtain ⟨hxmem, hxport, hxtype, hxfamily⟩ := hsub port hport x hx
    obtain ⟨hymem, hyport, hytype, hyfamily⟩ := hsub port hport y hy
    refine hdistinct.eq_of_same hxmem hymem ⟨?_, ?_, ?_, ?_⟩
    · exact hxtype.trans hytype.symm
    · exact hxfamily.trans hyfamily.symm
    · exact (hwildcard x hxmem hxwild).trans (hwildcard y hymem hywild).symm
    · exact hxport.trans hyport.symm
  · intro port hport
    rw [hports.addrs port hport]
    have hnodup : listen.Nodup := by
      refine List.Pairwise.imp (fun hnot heq => ?_) hdistinct
      subst heq
      exact hnot ⟨rfl, rfl, rfl, rfl⟩
    exact hnodup.filter _

/-- For every set of `listen` directives and every connection, `ngx_nsoc_init_connection`
selects the server and the flag `noise_on` of the directive for the local address, or those
of the wildcard if there is no such directive. -/
theorem init_connection_selects {created : List (Listening C)}
    (hcreated : listening listen = ok created) {conn : LocalAddr} {ls : Listening C}
    (hls : Delivered created conn ls) :
    (∀ l ∈ listen, conn.OfPort l → l.addr = conn.addr →
      init_connection ls (some conn.addr) = ok (some ⟨l.ctx, l.noise_on⟩)) ∧
    ((∀ l ∈ listen, conn.OfPort l → l.addr ≠ conn.addr) →
      ∃ w ∈ listen, conn.OfPort w ∧ w.wildcard = true ∧
        init_connection ls (some conn.addr) = ok (some ⟨w.ctx, w.noise_on⟩)) := by
  obtain ⟨created', hcreated', hserves⟩ := listening_spec hdistinct hwildcard
  obtain rfl : created = created' := by simpa [hcreated] using hcreated'
  obtain ⟨port, hport, w, hw, others, rfl, hothers, halone, hall⟩ := hserves ls hls.mem
  have hports := grouped_add_ports listen
  -- The directives for the port of the connection are those of `port`.
  have hmem : ∀ x, x ∈ port.addrs ↔ x ∈ listen ∧ port.Holds x := by
    intro x
    rw [hports.addrs port hport, List.mem_filter, decide_eq_true_eq]
  obtain ⟨hwlisten, hwport⟩ := (hmem w).mp hw
  obtain ⟨hfamily, htype, hportno⟩ := hls.port
  simp only [socket] at hfamily htype hportno
  have hsame : ∀ x, conn.OfPort x ↔ port.Holds x := by
    intro x
    simp only [LocalAddr.OfPort, ConfPort.Holds, ← hfamily, ← htype, ← hportno] at hwport ⊢
    rw [hwport.1, hwport.2.1, hwport.2.2]
    tauto
  have hunique : ∀ x ∈ port.addrs, ∀ y ∈ port.addrs, x.addr = y.addr → x = y := by
    intro x hx y hy haddr
    obtain ⟨hxlisten, hxport, hxtype, hxfamily⟩ := (hmem x).mp hx
    obtain ⟨hylisten, hyport, hytype, hyfamily⟩ := (hmem y).mp hy
    exact hdistinct.eq_of_same hxlisten hylisten ⟨hxtype.trans hytype.symm,
      hxfamily.trans hyfamily.symm, haddr, hxport.trans hyport.symm⟩
  rw [init_connection_socket]
  constructor
  · intro l hl hlport haddr
    have hlmem : l ∈ port.addrs := (hmem l).mpr ⟨hl, (hsame l).mp hlport⟩
    have hfound : (others.find? fun x => decide (x.addr = conn.addr)).getD w = l := by
      cases hfind : others.find? fun x => decide (x.addr = conn.addr) with
      | some x =>
        have hx : x.addr = conn.addr := by simpa using List.find?_some hfind
        exact hunique x (hothers x (List.mem_of_find?_eq_some hfind)).1 l hlmem (hx.trans haddr.symm)
      | none =>
        -- The directive is not served by the wildcard, so it is the one of the socket.
        have hnot : l ∉ others := fun hlo => by simpa [haddr] using List.find?_eq_none.mp hfind l hlo
        obtain hwaddr | ⟨hwild, hnone⟩ := hls.addr
        · exact hunique w hw l hlmem (hwaddr.trans haddr.symm)
        · obtain heq | hlo | hsocket := hall hwild l hlmem
          · exact heq.symm
          · exact absurd hlo hnot
          · exact absurd haddr (hnone _ hsocket hlport)
    rw [hfound]
    rfl
  · intro hnone
    have hwaddr : w.addr ≠ conn.addr := hnone w hwlisten ((hsame w).mpr hwport)
    have hfind : others.find? (fun x => decide (x.addr = conn.addr)) = none := by
      refine List.find?_eq_none.mpr fun x hx => ?_
      obtain ⟨hxlisten, hxport⟩ := (hmem x).mp (hothers x hx).1
      simpa using hnone x hxlisten ((hsame x).mpr hxport)
    obtain haddr | ⟨hwild, -⟩ := hls.addr
    · exact absurd haddr hwaddr
    · refine ⟨w, hwlisten, (hsame w).mpr hwport, hwild, ?_⟩
      rw [hfind]
      rfl

end

/-- A wildcard with `noise`, and two addresses of which one is explicitly bound. -/
def threeListens : List (Listen Nat) :=
  [⟨.inet, .stream, INADDR_ANY, 443, 0, false, true, true⟩,
    ⟨.inet, .stream, 1, 443, 1, false, false, false⟩, ⟨.inet, .stream, 2, 443, 2, true, false, true⟩]

theorem init_connection_selects_unbound :
    init_connection (⟨.inet, .stream, INADDR_ANY, 443, true, 2,
      [⟨1, ⟨1, false⟩⟩, ⟨INADDR_ANY, ⟨0, true⟩⟩]⟩ : Listening Nat) (some 1) =
      ok (some ⟨1, false⟩) := by
  let bound : Listening Nat := ⟨.inet, .stream, 2, 443, false, 1, [⟨2, ⟨2, true⟩⟩]⟩
  let wildcard : Listening Nat := ⟨.inet, .stream, INADDR_ANY, 443, true, 2,
    [⟨1, ⟨1, false⟩⟩, ⟨INADDR_ANY, ⟨0, true⟩⟩]⟩
  have hdistinct : Distinct threeListens := by
    simp [Distinct, threeListens, Listen.same]
  have hwildcard : ∀ l ∈ threeListens, l.wildcard = true → l.addr = INADDR_ANY := by
    simp [threeListens]
  have hcreated : listening threeListens = ok [bound, wildcard] := by decide
  have hls : Delivered [bound, wildcard] ⟨.inet, .stream, 1, 443⟩ wildcard :=
    ⟨by simp, ⟨rfl, rfl, rfl⟩, .inr ⟨rfl, by simp [bound, wildcard]⟩⟩
  exact (init_connection_selects hdistinct hwildcard hcreated hls).1
    ⟨.inet, .stream, 1, 443, 1, false, false, false⟩ (by simp [threeListens]) ⟨rfl, rfl, rfl⟩ rfl

end ngx_nsoc
