import NoiseSocket.Handler.Data.Confined
import NoiseSocket.Relay.Admitted

open Exec Exec.Result

namespace ngx_nsoc

variable {S D : Type}

namespace Links

/-- The links of the relay's own buffer begin where it begins. -/
def Based (l : Links) (start : Nat) (chain : List Nat) : Prop :=
  ∀ i ∈ chain, (l.buf i).preread = false → (l.buf i).start = start

/-- A link that can be sealed in place: the buffer of the relay has room for its frame, or it is refused
because of its size. -/
def Sealable (l : Links) (sizes : BufferSizes) (i : Nat) : Prop :=
  (l.buf i).preread = false → l.span i - 2 * NGX_NSOC_LEN_FIELD_SIZE ≤ sizes.block ∨
    sizes.preread < l.span i - 2 * NGX_NSOC_LEN_FIELD_SIZE

theorem Based.of_moved {l l' : Links} {start : Nat} {chain rest : List Nat} (h : l.Based start chain)
    (hmoved : Moved l l') (hrest : rest ⊆ chain) : l'.Based start rest := by
  intro i hi hplace
  obtain ⟨pos, hbuf⟩ := hmoved.buf i
  rw [hbuf] at hplace ⊢
  exact h i (hrest hi) hplace

end Links

/-- What a destination does to the buffer of a relay that starts at `start`: it stores there only. `kept` is
what holds of the connection, and only one that seals `in_place` needs something of the links. -/
structure Confines (P : Destination D) (sizes : BufferSizes) (in_place : Bool) (kept : D → Prop) : Prop where
  fresh : ∀ {d}, P.fresh d → kept d
  elsewhere : ∀ {d d'}, P.elsewhere d d' → kept d → kept d'
  sent : ∀ {chain links links' heap heap' d d' rest start}, kept d →
    (in_place → links.Based start chain ∧ ∀ i ∈ chain, links.Sealable sizes i) →
    P.send_chain chain links heap d = ok (rest, links', heap', d') →
      kept d' ∧ heap.relay.WritesWithin heap'.relay (Set.Ico start (start + sizes.block + 20)) ∧
      (in_place → ∀ left, rest = some left → links'.Based start left)

/-- The `send_chain` of a connection in clear text: it reads the links, and stores nothing in them. -/
def Destination.ReadOnly (P : Destination D) : Prop :=
  ∀ {chain links links' heap heap' d d' rest},
    P.send_chain chain links heap d = ok (rest, links', heap', d') → heap' = heap

theorem confines_of_read_only {P : Destination D} (sizes : BufferSizes) (hP : P.ReadOnly) :
    Confines P sizes false fun _ => True where
  fresh _ := trivial
  elsewhere _ _ := trivial
  sent _ _ h := by
    rw [hP h]
    refine ⟨trivial, .refl _ _, ?_⟩
    intro hin_place
    cases hin_place

namespace NoiseDst

variable {N : NoiseC S} {fuel passes : Nat} {d : NoiseDst S} {links : Links} {heap : Heap}
  {chain : List Nat}

/-- The connection of a direction, as it was created. -/
def Created (sizes : BufferSizes) (from_upstream : Bool) (d : NoiseDst S) : Prop :=
  d.w.nc.buffer_size = sizes.noise_buffer_size from_upstream ∧ d.w.nc.buffer = !from_upstream

/-- A block that is offered from its start on is sealed there. -/
theorem confined_send (hN : N.Tagged) {lo hi data size : Nat} {mem : Memory}
    {sent : Int × Memory × NoiseDst S}
    (hlo : lo ≤ data)
    (hfits : size - 2 * NGX_NSOC_LEN_FIELD_SIZE ≤ d.w.nc.buffer_size →
      data + (size - 2 * NGX_NSOC_LEN_FIELD_SIZE) + 20 ≤ hi)
    (h : d.send N fuel mem data size = ok sent) : mem.WritesWithin sent.2.1 (Set.Ico lo hi) := by
  obtain ⟨r, hwrite, hrest⟩ := bind_eq_ok_iff.mp h
  cases hrest
  exact Endpoint.confined_write (w := { d.w with mem }) hN hlo hfits hwrite

theorem created_send {sizes : BufferSizes} {from_upstream : Bool} {data size : Nat} {mem : Memory}
    {sent : Int × Memory × NoiseDst S} (hd : d.Created sizes from_upstream)
    (h : d.send N fuel mem data size = ok sent) : sent.2.2.Created sizes from_upstream := by
  have hnc := (sends_of_send h).nc
  rw [Created, hnc]
  exact hd

/-- A chain whose links can all be sealed in place. -/
theorem confined_unbuffered (hN : N.Tagged) {sizes : BufferSizes} {start : Nat}
    {r : Option (List Nat) × Unbuffered S} (hd : d.Created sizes true) (hbased : links.Based start chain)
    (hseal : ∀ i ∈ chain, links.Sealable sizes i)
    (h : loop (unbuffered_body N fuel) passes ⟨chain, links, heap, d⟩ = ok r) :
    r.2.d.Created sizes true ∧
      heap.relay.WritesWithin r.2.heap.relay (Set.Ico start (start + sizes.block + 20)) ∧
      ∀ left, r.1 = some left → r.2.links.Based start left := by
  refine loop_holds
    (fun u => u.d.Created sizes true ∧ Links.Moved links u.links ∧ u.chain ⊆ chain ∧
      heap.relay.WritesWithin u.heap.relay (Set.Ico start (start + sizes.block + 20)))
    (fun r => r.2.d.Created sizes true ∧
      heap.relay.WritesWithin r.2.heap.relay (Set.Ico start (start + sizes.block + 20)) ∧
      ∀ left, r.1 = some left → r.2.links.Based start left) ?_
    ⟨hd, .refl links, List.Subset.refl chain, .refl _ _⟩ h
  rintro ⟨todo, links', heap', d'⟩ flow ⟨hcreated, hmoved, htodo, hwrites⟩ hbody
  cases todo with
  | nil =>
    cases hbody
    refine ⟨hcreated, hwrites, ?_⟩
    rintro left ⟨⟩
    exact hbased.of_moved hmoved (List.nil_subset chain)
  | cons i todo =>
    have hmem : i ∈ chain := htodo List.mem_cons_self
    have hrest : todo ⊆ chain := fun j hj => htodo (List.mem_cons_of_mem i hj)
    unfold unbuffered_body at hbody
    dsimp only at hbody
    split_ifs at hbody with hspecial
    · cases hbody
      exact ⟨hcreated, hmoved, hrest, hwrites⟩
    · obtain ⟨sent, hsend, hflow⟩ := bind_eq_ok_iff.mp hbody
      have hsent := created_send hcreated hsend
      have hstart := hmoved.trans (links'.moved_set i (links'.buf i).start)
      have hstored : heap.relay.WritesWithin (heap'.setBlock (links'.buf i) sent.2.1).relay
          (Set.Ico start (start + sizes.block + 20)) := by
        unfold Heap.setBlock
        split_ifs with hpreread
        · exact hwrites
        · -- the block lies in the buffer of the relay, and is sealed from its start on
          have hplace : (links.buf i).preread = false := by
            obtain ⟨pos, hbuf⟩ := hmoved.buf i
            rw [hbuf] at hpreread
            exact Bool.eq_false_iff.mpr hpreread
          have hbase : (links'.buf i).start = start := by
            obtain ⟨pos, hbuf⟩ := hmoved.buf i
            rw [hbuf]
            exact hbased i hmem hplace
          have hspan : links.span i = (links'.buf i).last - (links'.buf i).start := by
            rw [← hmoved.span_eq, Links.span, if_neg hspecial]
          rw [Heap.block, if_neg hpreread] at hsend
          refine hwrites.trans (confined_send hN (Nat.le_of_eq hbase.symm) (fun hadmitted => ?_) hsend)
          have hsize : d'.w.nc.buffer_size = sizes.preread := hcreated.1
          have hroom := hseal i hmem hplace
          rw [hspan] at hroom
          omega
      split_ifs at hflow with herror hagain hwhole
      · cases hflow
        refine ⟨hsent, hstored, ?_⟩
        intro left hleft
        cases hleft
      · cases hflow
        refine ⟨hsent, hstored, ?_⟩
        rintro left ⟨⟩
        exact hbased.of_moved hstart htodo
      · cases hflow
        exact ⟨hsent, hmoved.trans ((links'.moved_set i _).set_again _), hrest, hstored⟩
      · cases hflow
        exact ⟨hsent, hmoved.trans ((links'.moved_set i _).set_again _), htodo, hstored⟩

/-- Filling `nc->buf` leaves the connection. -/
theorem fill_keeps_nc {limit : Int} {u r : Buffered S} (h : loop (fill_body heap limit) passes u = ok r) :
    r.d.w.nc = u.d.w.nc := by
  refine loop_keeps (fun u : Buffered S => u.d.w.nc) (fun u => u.d.w.nc) ?_ h
  rintro ⟨todo, links', d', buf, send, flush⟩ flow hbody
  cases todo with
  | nil =>
    cases hbody
    rfl
  | cons i todo =>
    unfold fill_body at hbody
    dsimp only at hbody
    split_ifs at hbody
    all_goals
      cases hbody
      rfl

theorem created_buffered {sizes : BufferSizes} {from_upstream : Bool} {limit : Int} {u : Buffered S}
    {r : Option (List Nat) × Buffered S} (hu : u.d.Created sizes from_upstream)
    (h : loop (buffered_body N fuel heap limit) passes u = ok r) : r.2.d.Created sizes from_upstream := by
  refine loop_holds (fun u => u.d.Created sizes from_upstream)
    (fun r => r.2.d.Created sizes from_upstream) ?_ hu h
  intro v flow hv hbody
  unfold buffered_body at hbody
  obtain ⟨t, hfill, hrest⟩ := bind_eq_ok_iff.mp hbody
  have ht : t.d.Created sizes from_upstream := by
    rw [Created, fill_keeps_nc hfill]
    exact hv
  dsimp only at hrest
  split_ifs at hrest with hmore hempty
  · cases hrest
    exact ht
  · cases hrest
    exact ht
  all_goals
    obtain ⟨sent, hsend, hflow⟩ := bind_eq_ok_iff.mp hrest
    have hsent := created_send ht hsend
    split_ifs at hflow
    all_goals
      cases hflow
      exact hsent

theorem created_alloc_buf {sizes : BufferSizes} {from_upstream : Bool} (hd : d.Created sizes from_upstream) :
    d.alloc_buf.2.Created sizes from_upstream := by
  unfold alloc_buf
  cases d.buf with
  | some buf => exact hd
  | none =>
    dsimp only
    split_ifs
    · exact hd
    · exact hd

/-- A connection that puts blocks together stores nothing in the buffer of the relay, and one that does not
stores there where it seals. -/
theorem confined_send_chain (hN : N.Tagged) {sizes : BufferSizes} {from_upstream : Bool} {limit : Int}
    {start : Nat} {r : Option (List Nat) × Links × Heap × NoiseDst S} (hd : d.Created sizes from_upstream)
    (hlinks : from_upstream → links.Based start chain ∧ ∀ i ∈ chain, links.Sealable sizes i)
    (h : d.send_chain N fuel limit chain links heap = ok r) :
    r.2.2.2.Created sizes from_upstream ∧
      heap.relay.WritesWithin r.2.2.1.relay (Set.Ico start (start + sizes.block + 20)) ∧
      (from_upstream → ∀ left, r.1 = some left → r.2.1.Based start left) := by
  unfold send_chain at h
  by_cases hconnection : d.w.nc.connection ≠ d.w.c.id
  · rw [if_pos hconnection] at h
    cases h
    refine ⟨hd, .refl _ _, ?_⟩
    intro _ left hleft
    cases hleft
  · rw [if_neg hconnection] at h
    cases from_upstream with
    | true =>
      have hbuffer : ¬ d.w.nc.buffer := by simp [hd.2]
      rw [if_pos hbuffer] at h
      obtain ⟨s, hloop, hrest⟩ := bind_eq_ok_iff.mp h
      cases hrest
      obtain ⟨hbased, hseal⟩ := hlinks rfl
      obtain ⟨hcreated, hwrites, hleft⟩ := confined_unbuffered hN hd hbased hseal hloop
      exact ⟨hcreated, hwrites, fun _ => hleft⟩
    | false =>
      have hnot : ∀ {p : Prop}, (false = true → p) := fun h => absurd h Bool.false_ne_true
      have hbuffer : ¬ ¬ d.w.nc.buffer := by simp [hd.2]
      have halloc := created_alloc_buf hd
      rw [if_neg hbuffer] at h
      cases hbuf : d.alloc_buf with
      | mk buf d' =>
        rw [hbuf] at h halloc
        cases buf with
        | none =>
          cases h
          exact ⟨halloc, .refl _ _, hnot⟩
        | some buf =>
          obtain ⟨s, hloop, hrest⟩ := bind_eq_ok_iff.mp h
          cases hrest
          have hstart : (start_buffered chain links d' buf).d.Created sizes false := halloc
          exact ⟨created_buffered hstart hloop, .refl _ _, hnot⟩

/-- The connection of a direction seals in place where the direction goes to the client. -/
theorem confines_destination (hN : N.Tagged) (sizes : BufferSizes) (update_chains : UpdateChains)
    (ngx_pagesize : Nat) (from_upstream : Bool) :
    Confines (sizes.destination update_chains N fuel ngx_pagesize from_upstream) sizes from_upstream
      (Created sizes from_upstream) where
  fresh h := h.2
  elsewhere h hd := ⟨h.buffer_size.trans hd.1, h.buffer.trans hd.2⟩
  sent hd hlinks h := confined_send_chain hN hd hlinks h

end NoiseDst

end ngx_nsoc
