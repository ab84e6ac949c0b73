import Mathlib.Data.List.TakeWhile
import NoiseSocket.Handler.Data.Silent
import NoiseSocket.Relay.Halves
import NoiseSocket.Relay.Run

open Exec Exec.Result

namespace ngx_nsoc

variable {S D : Type}

namespace Links

/-- The links of `l'` are those of `l`, with some of their bytes gone. -/
def Advanced (l l' : Links) : Prop := l'.made = l.made ∧ ∀ i, ∃ pos, (l.buf i).pos ≤ pos ∧
  l'.buf i = { l.buf i with pos }

/-- Chains with the same bytes in their links. -/
theorem contents_congr {l l' : Links} {h h' : Heap} {chain : List Nat}
    (hsame : ∀ i ∈ chain, h'.region (l'.buf i) = h.region (l.buf i)) :
    l'.contents h' chain = l.contents h chain :=
  List.flatMap_congr hsame

theorem Advanced.size_le {l l' : Links} (h : Advanced l l') (i : Nat) :
    (l'.buf i).ngx_buf_size ≤ (l.buf i).ngx_buf_size := by
  obtain ⟨pos, hpos, hbuf⟩ := h.2 i
  rw [hbuf]
  simp only [ChainBuf.ngx_buf_size]
  split_ifs
  · omega
  · exact Nat.le_refl _

end Links

/-- A destination that transmits, in order, the bytes that the links hold at the time of the call, and
returns the unsent rest: `given` is what it has transmitted so far. -/
structure Transmits (P : Destination D) (given : D → List UInt8) : Prop where
  frees : P.update_chains.Frees
  fresh : ∀ {d}, P.fresh d → given d = []
  elsewhere : ∀ {d d'}, P.elsewhere d d' → given d' = given d
  sent : ∀ {chain rest links links' heap heap' d d'},
    P.send_chain chain links heap d = ok (some rest, links', heap', d') →
      Links.Advanced links links' ∧ rest ⊆ chain ∧
      (∀ i ∈ chain, i ∉ rest → (links'.buf i).ngx_buf_size = 0) ∧
      (∀ i ∈ rest, heap'.region (links'.buf i) <:+ heap.region (links.buf i)) ∧
      ∃ part, given d' = given d ++ part ∧ links.contents heap chain = part ++ links'.contents heap' rest
  failed : ∀ {chain links links' heap heap' d d'},
    P.send_chain chain links heap d = ok (none, links', heap', d') →
      ∃ part, given d' = given d ++ part ∧ part <+: links.contents heap chain

namespace Relay

/-- A link of the buffer of the relay that has unsent bytes. -/
def Occupies (r : Relay S D) (i : Nat) : Prop :=
  (r.links.buf i).preread = false ∧ (r.links.buf i).ngx_buf_size ≠ 0

/-- What a read needs of the buffer of the relay. From a plain source its block must end in front of the
unsent bytes of every link that an earlier call has left, and if the session has a noise connection then
nothing may have come in, because it would be stored at the start of the buffer; from a noise source,
which is stored from the start of the buffer on, no link may have unsent bytes there, unless nothing has
come in. -/
def Vacant (conf : RelayConf) (r : Relay S D) : Prop :=
  match r.src with
  | .plain _ _ noise_connection => (noise_connection → r.next_size conf = 0) ∧
      ∀ i ∈ r.saved ++ r.out, i < r.entered → r.Occupies i →
        r.b.last + r.next_size conf ≤ (r.links.buf i).pos
  | .noise w => w.env.rx.Silent ∨
      (r.b.last = r.b.start + 2 * NGX_NSOC_LEN_FIELD_SIZE ∧ ∀ i ∈ r.saved ++ r.out, ¬ r.Occupies i)

/-- The condition of a step. -/
def Reads (conf : RelayConf) (stage : Stage) (r : Relay S D) : Prop :=
  stage = .reading → r.readable → r.Vacant conf

section

variable {conf : RelayConf} {P : Destination D} {given : D → List UInt8} {N : NoiseC S} {fuel : Nat}
  {r r' : Relay S D}

/-- What the steps keep: what was given, with the unsent bytes behind it, is what `recv` has returned; each
link holds the rest of what it was made for; and the links of this call lie in front of the next read. -/
structure InOrder (conf : RelayConf) (given : D → List UInt8) (r : Relay S D) : Prop where
  payload : r.payload =
    (if r.connected then given r.dst else r.preread_bytes conf) ++ r.links.contents r.heap (r.saved ++ r.out)
  idle : r.connected = false → r.saved = []
  made : ∀ i ∈ r.saved ++ r.out, i < r.links.made
  held : ∀ i ∈ r.saved ++ r.out, r.heap.region (r.links.buf i) <:+ r.record i
  busy : ∀ i ∈ r.saved, (r.links.buf i).ngx_buf_size ≠ 0 → i ∈ r.busy
  saved : ∀ i ∈ r.busy, (r.links.buf i).ngx_buf_size ≠ 0 → i ∈ r.saved ++ r.out
  known : ∀ i ∈ r.busy, i < r.links.made
  front : ∀ i ∈ r.saved ++ r.out, r.entered ≤ i → r.Occupies i → (r.links.buf i).last ≤ r.b.last

theorem length_answerBytes_le (answer : Net.Answer) :
    (answerBytes answer).length ≤ (taken (answerCode answer)).toNat := by
  cases answer <;> simp [answerBytes, answerCode, taken]

/-- The region of a link whose bytes the relay buffer does not hold. -/
theorem region_of_not_occupies {i : Nat} (h : ¬ r.Occupies i) (relay : Memory) :
    Heap.region { r.heap with relay } (r.links.buf i) = r.heap.region (r.links.buf i) := by
  cases hpreread : (r.links.buf i).preread with
  | true => simp [Heap.region, Heap.block, hpreread]
  | false =>
    have hsize : (r.links.buf i).ngx_buf_size = 0 := by
      by_contra hsize
      exact h ⟨hpreread, hsize⟩
    simp [Heap.region, hsize]

/-- The region of a link in whose bytes the relay buffer has not changed. -/
theorem region_of_same {i : Nat} {relay : Memory}
    (h : ∀ x, (r.links.buf i).pos ≤ x → x < (r.links.buf i).last → relay.byte x = r.heap.relay.byte x) :
    Heap.region { r.heap with relay } (r.links.buf i) = r.heap.region (r.links.buf i) := by
  cases hpreread : (r.links.buf i).preread with
  | true => simp [Heap.region, Heap.block, hpreread]
  | false =>
    simp only [Heap.region, Heap.block, hpreread, Bool.false_eq_true, if_false]
    apply Memory.read_congr
    intro x hlo hhi
    refine h x hlo ?_
    have hle : (r.links.buf i).ngx_buf_size ≤ (r.links.buf i).last - (r.links.buf i).pos := by
      unfold ChainBuf.ngx_buf_size
      split
      · exact Nat.le_refl _
      · exact Nat.zero_le _
    omega

/-- A read leaves the unsent bytes alone, and its payload is where the link is told. -/
theorem recv_of_vacant {got : Int × Memory × Source S} (h : r.InOrder conf given) (hvacant : r.Vacant conf)
    (hrecv : r.src.recv N fuel r.heap.relay r.read_addr (r.read_size conf) = ok got) :
    (∀ i ∈ r.saved ++ r.out, Heap.region { r.heap with relay := got.2.1 } (r.links.buf i) =
        r.heap.region (r.links.buf i)) ∧
      (∀ b, got.2.2.payload_addr b = r.src.payload_addr b) ∧
      got.2.1.read r.payload_addr (taken got.1).toNat = got.2.1.read r.b.last (taken got.1).toNat := by
  unfold Vacant at hvacant
  cases hsrc : r.src with
  | plain rx read noise_connection =>
    rw [hsrc] at hvacant hrecv
    obtain ⟨hnothing, hfree⟩ := hvacant
    have hlen := length_answerBytes_le (rx.recv (r.read_size conf)).1
    have hsize : r.next_size conf = (taken (answerCode (rx.recv (r.read_size conf)).1)).toNat := by
      rw [next_size, hsrc]
    cases hrecv
    cases noise_connection with
    | true =>
      -- nothing was stored at the start of the buffer
      have hzero : (taken (answerCode (rx.recv (r.read_size conf)).1)).toNat = 0 := hsize.symm.trans (hnothing rfl)
      have hnone : answerBytes (rx.recv (r.read_size conf)).1 = [] := by
        apply List.eq_nil_of_length_eq_zero
        omega
      refine ⟨fun i _ => region_of_same fun x _ _ => ?_, fun _ => rfl, ?_⟩
      · dsimp only
        rw [hnone, Memory.byte_write_nil]
      · dsimp only
        rw [hzero]
        rfl
    | false =>
      have haddr : r.read_addr = r.b.last := by
        rw [read_addr, hsrc]
        rfl
      refine ⟨fun i hi => ?_, fun _ => rfl, ?_⟩
      · by_cases hoccupies : r.Occupies i
        · apply region_of_same
          intro x hlo hhi
          rw [haddr]
          by_cases hold : i < r.entered
          · have hroom := hfree i hi hold hoccupies
            exact Memory.byte_write_of_le _ _ (by omega)
          · have hfront := h.front i hi (by omega) hoccupies
            exact Memory.byte_write_of_lt _ _ (by omega)
        · exact region_of_not_occupies hoccupies _
      · rw [payload_addr, hsrc]
        rfl
  | noise w =>
    rw [hsrc] at hvacant hrecv
    dsimp only at hvacant
    obtain ⟨r', hcall, hrest⟩ := bind_eq_ok_iff.mp hrecv
    cases hrest
    obtain hsilent | ⟨hlast, hfree⟩ := hvacant
    · obtain ⟨hn, hsame⟩ := Endpoint.recv_call_of_silent (w := { w with mem := r.heap.relay }) hsilent hcall
      have hzero : (taken r'.1).toNat = 0 := by
        unfold taken
        split_ifs <;> omega
      refine ⟨fun i _ => region_of_same fun x _ _ => hsame x, fun _ => rfl, ?_⟩
      rw [hzero]
      rfl
    · refine ⟨fun i hi => region_of_not_occupies (hfree i hi) _, fun _ => rfl, ?_⟩
      rw [payload_addr, hsrc, hlast]
      rfl

/-- What `recv` has stored changes no link. -/
theorem InOrder.after_recv {got : Int × Memory × Source S} (h : r.InOrder conf given)
    (hsame : ∀ i ∈ r.saved ++ r.out, Heap.region { r.heap with relay := got.2.1 } (r.links.buf i) =
      r.heap.region (r.links.buf i)) (read : Event) (responses : Nat) (allocs : List Bool) :
    (r.after_recv got read responses allocs).InOrder conf given where
  payload := by
    show r.payload = (if r.connected then given r.dst else r.preread_bytes conf) ++
      r.links.contents { r.heap with relay := got.2.1 } (r.saved ++ r.out)
    rw [Links.contents_congr hsame]
    exact h.payload
  idle := h.idle
  made := h.made
  held i hi := by
    show Heap.region { r.heap with relay := got.2.1 } (r.links.buf i) <:+ r.record i
    rw [hsame i hi]
    exact h.held i hi
  busy := h.busy
  saved := h.saved
  known := h.known
  front := h.front

theorem region_add_link (r : Relay S D) (n : Nat) :
    (r.add_link n).heap.region ((r.add_link n).links.buf r.links.made) = r.heap.relay.read r.b.last n := by
  rw [buf_add_link_self]
  by_cases hn : n = 0
  · simp [Heap.region, ChainBuf.ngx_buf_size, hn]
  · simp [Heap.region, ChainBuf.ngx_buf_size, hn, Heap.block, add_link]

/-- A link for what `recv` has returned. -/
theorem InOrder.add_link {n : Nat} (h : r.InOrder conf given)
    (hat : r.heap.relay.read r.payload_addr n = r.heap.relay.read r.b.last n) :
    (r.add_link n).InOrder conf given where
  payload := by
    have hold : (r.add_link n).links.contents r.heap (r.saved ++ r.out) =
        r.links.contents r.heap (r.saved ++ r.out) := by
      apply Links.contents_congr
      intro i hi
      rw [buf_add_link_of_lt (h.made i hi)]
    have hnew : (r.add_link n).links.contents r.heap [r.links.made] = r.heap.relay.read r.b.last n := by
      rw [Links.contents_cons, Links.contents_nil, List.append_nil]
      exact r.region_add_link n
    show r.payload ++ r.heap.relay.read r.payload_addr n =
      (if r.connected then given r.dst else r.preread_bytes conf) ++
        (r.add_link n).links.contents r.heap (r.saved ++ (r.out ++ [r.links.made]))
    rw [← List.append_assoc r.saved, Links.contents_append, hold, hnew, hat, h.payload, List.append_assoc]
  idle := h.idle
  made i hi := by
    show i < r.links.made + 1
    obtain hi | rfl := mem_add_link.mp hi
    · exact Nat.lt_succ_of_lt (h.made i hi)
    · exact Nat.lt_succ_self _
  held i hi := by
    obtain hi | rfl := mem_add_link.mp hi
    · have hlt := h.made i hi
      rw [buf_add_link_of_lt hlt]
      show r.heap.region (r.links.buf i) <:+ if i = r.links.made then _ else r.record i
      rw [if_neg (Nat.ne_of_lt hlt)]
      exact h.held i hi
    · rw [region_add_link]
      show _ <:+ if r.links.made = r.links.made then r.heap.relay.read r.payload_addr n else _
      simp only [if_pos, hat, List.suffix_rfl]
  busy i hi hsize := by
    rw [buf_add_link_of_lt (h.made i (List.mem_append_left _ hi))] at hsize
    exact h.busy i hi hsize
  saved i hi hsize := by
    rw [buf_add_link_of_lt (h.known i hi)] at hsize
    exact mem_add_link.mpr (.inl (h.saved i hi hsize))
  known i hi := Nat.lt_succ_of_lt (h.known i hi)
  front i hi hentered hoccupies := by
    show ((r.add_link n).links.buf i).last ≤ r.b.last + n
    obtain hi | rfl := mem_add_link.mp hi
    · have hlt := h.made i hi
      rw [Occupies, buf_add_link_of_lt hlt] at hoccupies
      rw [buf_add_link_of_lt hlt]
      exact Nat.le_trans (h.front i hi hentered hoccupies) (Nat.le_add_right _ _)
    · rw [buf_add_link_self]

/-- Only links that are done with leave `*busy`. -/
theorem mem_update_chains (hupdate : P.update_chains.Frees) {done : Nat → Bool} {busy out : List Nat} {i : Nat}
    (hi : i ∈ busy ++ out) (hdone : done i = false) : i ∈ P.update_chains done busy out := by
  obtain ⟨freed, hsplit, hfreed⟩ := hupdate done busy out
  rw [hsplit] at hi
  obtain hi | hi := List.mem_append.mp hi
  · exact absurd ((hfreed i hi).symm.trans hdone) (by decide)
  · exact hi

theorem update_chains_subset (hupdate : P.update_chains.Frees) (done : Nat → Bool) (busy out : List Nat) :
    P.update_chains done busy out ⊆ busy ++ out := by
  obtain ⟨freed, hsplit, -⟩ := hupdate done busy out
  rw [hsplit]
  exact List.subset_append_right _ _

/-- The writing half of a pass, where the chain was sent but for `rest`. -/
theorem InOrder.after_write {s : Relay S D} {links : Links} {heap : Heap} {dst : D} {rest : List Nat}
    {part : List UInt8} (hupdate : P.update_chains.Frees) (h : r.InOrder conf given) (hconnected : r.connected)
    (hadvanced : Links.Advanced r.links links) (hrest : rest ⊆ r.saved ++ r.out)
    (hempty : ∀ i ∈ r.saved ++ r.out, i ∉ rest → (links.buf i).ngx_buf_size = 0)
    (hheld : ∀ i ∈ rest, heap.region (links.buf i) <:+ r.heap.region (r.links.buf i))
    (hgiven : given dst = given r.dst ++ part)
    (hcontents : r.links.contents r.heap (r.saved ++ r.out) = part ++ links.contents heap rest)
    (allocs : List Bool) (write_buffered : Bool)
    (hs : s = { r with allocs, ctx := true, links, heap, dst, saved := rest, write_buffered }) :
    (s.update_chains P).rewind.InOrder conf given := by
  obtain ⟨b, hb, hkeeps⟩ := (s.update_chains P).rewind_eq
  rw [hb]
  subst hs
  have hsize : ∀ {i}, (links.buf i).ngx_buf_size ≠ 0 → (r.links.buf i).ngx_buf_size ≠ 0 := by
    intro i hi
    have hle := hadvanced.size_le i
    omega
  have hbusy : ∀ i ∈ rest, (links.buf i).ngx_buf_size ≠ 0 →
      i ∈ P.update_chains (fun j => (links.buf j).ngx_buf_size = 0) r.busy r.out := by
    intro i hi hbytes
    apply mem_update_chains hupdate _ (decide_eq_false hbytes)
    obtain hsaved | hout := List.mem_append.mp (hrest hi)
    · exact List.mem_append_left _ (h.busy i hsaved (hsize hbytes))
    · exact List.mem_append_right _ hout
  have hmade : ∀ i ∈ r.saved ++ r.out, i < links.made := by
    rw [hadvanced.1]
    exact h.made
  have hchain : ∀ i ∈ r.busy ++ r.out, (links.buf i).ngx_buf_size ≠ 0 → i ∈ r.saved ++ r.out := by
    intro i hi hbytes
    obtain hi | hi := List.mem_append.mp hi
    · exact h.saved i hi (hsize hbytes)
    · exact List.mem_append_right _ hi
  refine ⟨?_, ?_, ?_, ?_, hbusy, ?_, ?_, ?_⟩
  · show r.payload = (if r.connected then given dst else _) ++ links.contents heap (rest ++ [])
    rw [h.payload, if_pos hconnected, if_pos hconnected, hgiven, hcontents, List.append_nil, List.append_assoc]
  · intro hnot
    exact absurd (hconnected.symm.trans hnot) (by decide)
  · intro i hi
    change i ∈ rest ++ [] at hi
    rw [List.append_nil] at hi
    exact hmade i (hrest hi)
  · intro i hi
    change i ∈ rest ++ [] at hi
    rw [List.append_nil] at hi
    exact (hheld i hi).trans (h.held i (hrest hi))
  · intro i hi hbytes
    show i ∈ rest ++ []
    rw [List.append_nil]
    have hin := hchain i (update_chains_subset hupdate _ _ _ hi) hbytes
    by_contra hnot
    exact hbytes (hempty i hin hnot)
  · intro i hi
    show i < links.made
    obtain hi | hi := List.mem_append.mp (update_chains_subset hupdate _ _ _ hi)
    · rw [hadvanced.1]
      exact h.known i hi
    · exact hmade i (List.mem_append_right _ hi)
  · intro i hi hentered hoccupies
    change i ∈ rest ++ [] at hi
    rw [List.append_nil] at hi
    obtain ⟨hpreread, hbytes⟩ := hoccupies
    have hkept : b = r.b := hkeeps (List.ne_nil_of_mem (hbusy i hi hbytes))
    obtain ⟨pos, -, hbuf⟩ := hadvanced.2 i
    show (links.buf i).last ≤ b.last
    change (links.buf i).preread = false at hpreread
    rw [hbuf] at hpreread ⊢
    rw [hkept]
    exact h.front i (hrest hi) hentered ⟨hpreread, hsize hbytes⟩

theorem InOrder.given_prefix (h : r.InOrder conf given) (hconnected : r.connected) :
    given r.dst <+: r.payload := by
  rw [h.payload, if_pos hconnected]
  exact List.prefix_append _ _

/-- The write filter, whatever becomes of the chain. -/
theorem InOrder.after_filter {rc : Int} {s : Relay S D} (hP : Transmits P given) (h : r.InOrder conf given)
    (hconnected : r.connected) (hfiltered : Filtered conf P r (rc, s)) :
    given s.dst <+: s.payload ∧ (rc ≠ NGX_ERROR → (s.update_chains P).rewind.InOrder conf given) := by
  have hpayload := h.payload
  rw [if_pos hconnected] at hpayload
  cases hfiltered with
  | refused allocs => exact ⟨h.given_prefix hconnected, fun hrc => absurd rfl hrc⟩
  | useless allocs => exact ⟨h.given_prefix hconnected, fun hrc => absurd rfl hrc⟩
  | empty allocs hsize hbuffered =>
    have hnone : ∀ i ∈ r.saved ++ r.out, (r.links.buf i).ngx_buf_size = 0 := by
      intro i hi
      exact List.sum_eq_zero_iff_forall_eq_nat.mp hsize _ (List.mem_map_of_mem hi)
    have hcontents : r.links.contents r.heap (r.saved ++ r.out) = [] := by
      apply List.flatMap_eq_nil_iff.mpr
      intro i hi
      rw [Heap.region, hnone i hi]
      rfl
    refine ⟨h.given_prefix hconnected, fun _ => ?_⟩
    exact h.after_write hP.frees hconnected ⟨rfl, fun i => ⟨_, Nat.le_refl _, rfl⟩⟩ (List.nil_subset _)
      (fun i hi _ => hnone i hi) nofun (List.append_nil _).symm hcontents allocs false rfl
  | failed allocs hsend =>
    obtain ⟨part, hgiven, hpart⟩ := hP.failed hsend
    refine ⟨?_, fun hrc => absurd rfl hrc⟩
    show given _ <+: r.payload
    rw [hpayload, hgiven]
    exact (List.prefix_append_right_inj _).mpr hpart
  | sent allocs rc write_buffered hsend =>
    obtain ⟨hadvanced, hrest, hempty, hheld, part, hgiven, hcontents⟩ := hP.sent hsend
    refine ⟨?_, fun _ => h.after_write hP.frees hconnected hadvanced hrest hempty hheld hgiven hcontents _ _ rfl⟩
    show given _ <+: r.payload
    rw [hpayload, hgiven, hcontents, ← List.append_assoc]
    exact List.prefix_append _ _

theorem preread_bytes_of_no_link
    (hnone : ∀ buffer, conf.preread = some buffer → ¬ buffer.pos < buffer.last) : r.preread_bytes conf = [] := by
  unfold preread_bytes
  cases hpreread : conf.preread with
  | none => rfl
  | some buffer =>
    have hempty : buffer.last - buffer.pos = 0 :=
      Nat.sub_eq_zero_of_le (Nat.le_of_not_lt (hnone buffer hpreread))
    dsimp only
    rw [hempty]
    rfl

/-- The link for what was read in the preread phase goes in front of the others. -/
theorem InOrder.after_connect {dst : D} {dst_read : Event} (hP : Transmits P given) (h : r.InOrder conf given)
    (hconnected : r.connected = false) (hdst : P.fresh dst) :
    (r.connect conf dst dst_read).InOrder conf given := by
  have hsaved := h.idle hconnected
  have hpayload := h.payload
  rw [hconnected, if_neg Bool.false_ne_true] at hpayload
  obtain ⟨read, heq, hnone⟩ | ⟨buffer, read, record, hpreread, hbytes, heq, hrecord⟩ :=
    connect_cases conf dst dst_read r
  · rw [heq]
    refine ⟨?_, nofun, h.made, h.held, h.busy, h.saved, h.known, h.front⟩
    show r.payload = given dst ++ r.links.contents r.heap (r.saved ++ r.out)
    rw [hpayload, hP.fresh hdst, preread_bytes_of_no_link hnone]
  · rw [heq]
    generalize hlink : (⟨true, buffer.start, buffer.pos, buffer.last, buffer.stop, true, conf.dgram, true⟩ :
      ChainBuf) = link
    have hregion : r.heap.region link = r.preread_bytes conf := by
      rw [← hlink, preread_bytes, hpreread]
      rfl
    have hnew : record r.links.made = r.preread_bytes conf := by
      rw [hrecord, preread_bytes, hpreread]
      exact if_pos rfl
    have hothers : ∀ i, i ≠ r.links.made → record i = r.record i := by
      intro i hi
      rw [hrecord]
      exact if_neg hi
    have hold : ∀ i ∈ r.saved ++ r.out, (r.links.make link).2.buf i = r.links.buf i :=
      fun i hi => r.links.buf_make_of_lt link (h.made i hi)
    have hmem : ∀ i, i ∈ r.saved ++ r.links.made :: r.out ↔ i = r.links.made ∨ i ∈ r.saved ++ r.out := by
      intro i
      rw [hsaved, List.nil_append, List.nil_append, List.mem_cons]
    refine ⟨?_, nofun, ?_, ?_, ?_, ?_, ?_, ?_⟩
    · show r.payload = given dst ++ (r.links.make link).2.contents r.heap (r.saved ++ r.links.made :: r.out)
      rw [hsaved, List.nil_append] at hpayload hold ⊢
      have hout : (r.links.make link).2.contents r.heap r.out = r.links.contents r.heap r.out :=
        Links.contents_congr fun i hi => by rw [hold i hi]
      rw [Links.contents_cons, Links.buf_make_self, hregion, hP.fresh hdst, List.nil_append, hout]
      exact hpayload
    · intro i hi
      show i < r.links.made + 1
      obtain rfl | hi := (hmem i).mp hi
      · exact Nat.lt_succ_self _
      · exact Nat.lt_succ_of_lt (h.made i hi)
    · intro i hi
      show r.heap.region ((r.links.make link).2.buf i) <:+ record i
      obtain rfl | hi := (hmem i).mp hi
      · simp only [Links.buf_make_self, hregion, hnew, List.suffix_rfl]
      · rw [hold i hi, hothers i (Nat.ne_of_lt (h.made i hi))]
        exact h.held i hi
    · intro i hi
      change i ∈ r.saved at hi
      rw [hsaved] at hi
      cases hi
    · intro i hi hbytes
      apply (hmem i).mpr
      change ((r.links.make link).2.buf i).ngx_buf_size ≠ 0 at hbytes
      rw [r.links.buf_make_of_lt link (h.known i hi)] at hbytes
      exact .inr (h.saved i hi hbytes)
    · exact fun i hi => Nat.lt_succ_of_lt (h.known i hi)
    · intro i hi hentered hoccupies
      change ((r.links.make link).2.buf i).last ≤ r.b.last
      obtain ⟨hplace, hbytes⟩ := hoccupies
      change ((r.links.make link).2.buf i).preread = false at hplace
      change ((r.links.make link).2.buf i).ngx_buf_size ≠ 0 at hbytes
      obtain rfl | hi := (hmem i).mp hi
      · rw [Links.buf_make_self, ← hlink] at hplace
        cases hplace
      · rw [hold i hi] at hplace hbytes ⊢
        exact h.front i hi hentered ⟨hplace, hbytes⟩

theorem InOrder.step {x y : Stage × Relay S D} (hP : Transmits P given)
    (hx : x.1 ≠ .ended → x.2.InOrder conf given) (hcond : x.2.Reads conf x.1)
    (hstep : Step conf P N fuel x y) :
    (y.2.connected → given y.2.dst <+: y.2.payload) ∧ (y.1 ≠ .ended → y.2.InOrder conf given) := by
  have hall : ∀ {stage : Stage} {t : Relay S D}, t.InOrder conf given →
      (t.connected → given t.dst <+: t.payload) ∧ (stage ≠ .ended → t.InOrder conf given) :=
    fun ht => ⟨ht.given_prefix, fun _ => ht⟩
  cases hstep with
  | enter r do_write elapsed =>
    have h := hx (by simp)
    refine hall ⟨h.payload, h.idle, h.made, h.held, h.busy, h.saved, h.known, ?_⟩
    intro i hi hentered
    exact absurd (h.made i hi) (Nat.not_lt.mpr hentered)
  | write r r' hwrite =>
    have h := hx (by simp)
    cases write_half hwrite with
    | skipped => exact hall h
    | written hconnected hdo_write hfiltered hrc => exact hall ((h.after_filter hP hconnected hfiltered).2 hrc)
  | write_end r r' exit hwrite =>
    have h := hx (by simp)
    cases write_half hwrite with
    | ended hconnected hdo_write exit hfiltered =>
      exact ⟨fun _ => (h.after_filter hP hconnected hfiltered).1, fun hend => absurd rfl hend⟩
  | read r r' hread =>
    have h := hx (by simp)
    cases read_half hread with
    | @link got hreadable hrecv hn read responses allocs =>
      obtain ⟨hsame, hkind, hat⟩ := recv_of_vacant h (hcond rfl hreadable) hrecv
      refine hall ((h.after_recv hsame read responses allocs).add_link ?_)
      have haddr : (r.after_recv got read responses allocs).payload_addr = r.payload_addr := by
        simp only [payload_addr, Relay.after_recv, Source.payload_addr_setRead, hkind]
      rw [haddr]
      exact hat
  | leave r r' exit hread =>
    have h := hx (by simp)
    have hleft : r'.InOrder conf given := by
      cases read_half hread with
      | idle => exact h
      | delayed => exact ⟨h.payload, h.idle, h.made, h.held, h.busy, h.saved, h.known, h.front⟩
      | left hreadable hrecv exit read responses allocs =>
        exact h.after_recv (recv_of_vacant h (hcond rfl hreadable) hrecv).1 read responses allocs
    cases exit with
    | some exit => exact ⟨hleft.given_prefix, fun hend => absurd rfl hend⟩
    | none =>
      obtain ⟨events, write_timer, hleave⟩ := leave_eq conf P r'
      apply hall
      show InOrder conf given (r'.leave conf P).2
      rw [hleave]
      exact ⟨hleft.payload, hleft.idle, hleft.made, hleft.held, hleft.busy, hleft.saved, hleft.known,
        hleft.front⟩
  | connect r dst dst_read hconnected hdst => exact hall ((hx (by simp)).after_connect hP hconnected hdst)
  | elsewhere r r' hr =>
    have h := hx (by simp)
    have hgiven := hP.elsewhere hr.dst
    rw [hr.others]
    refine hall ⟨?_, h.idle, h.made, h.held, h.busy, h.saved, h.known, h.front⟩
    show r.payload = (if r.connected then given r'.dst else r.preread_bytes conf) ++
      r.links.contents r.heap (r.saved ++ r.out)
    rw [hgiven]
    exact h.payload

theorem InOrder.of_initial {size : Nat} (hP : Transmits P given) (h : r.Initial conf P size) :
    r.InOrder conf given := by
  have hnone : r.saved ++ r.out = [] := by rw [h.saved, h.out, List.append_nil]
  refine ⟨?_, fun _ => h.saved, ?_, ?_, ?_, ?_, ?_, ?_⟩
  · rw [h.payload, hnone, Links.contents_nil, List.append_nil]
    split
    next hconnected => rw [hP.fresh (h.dst hconnected)]
    next => rfl
  · rw [hnone]
    nofun
  · rw [hnone]
    nofun
  · rw [h.saved]
    nofun
  · rw [h.busy]
    nofun
  · rw [h.busy]
    nofun
  · rw [hnone]
    nofun

theorem InOrder.held_busy (h : r.InOrder conf given) {i : Nat} (hi : i ∈ r.out ++ r.busy ++ r.saved) :
    r.heap.region (r.links.buf i) <:+ r.record i := by
  by_cases hbytes : (r.links.buf i).ngx_buf_size = 0
  · rw [Heap.region, hbytes]
    exact List.nil_suffix
  · apply h.held i
    simp only [List.mem_append] at hi ⊢
    obtain (hi | hi) | hi := hi
    · exact .inr hi
    · exact List.mem_append.mp (h.saved i hi hbytes)
    · exact .inl hi

/-- In a run whose reads find the buffer vacant, what the destination was given is at all times a prefix of
what `recv` has returned, and every link that is still in a chain holds the rest of what it was made for. -/
theorem given_prefix_of_run {size : Nat} {stage : Stage} {r₀ : Relay S D} (hP : Transmits P given)
    (hstart : r₀.Initial conf P size)
    (hrun : Run conf P N fuel (fun stage r => r.Reads conf stage) (.idle, r₀) (stage, r)) :
    (r.connected → given r.dst <+: r.payload) ∧
      (stage ≠ .ended → ∀ i ∈ r.out ++ r.busy ++ r.saved, r.heap.region (r.links.buf i) <:+ r.record i) := by
  have hfirst := InOrder.of_initial hP hstart
  have hlast := Run.invariant
    (fun stage r => (r.connected → given r.dst <+: r.payload) ∧ (stage ≠ .ended → r.InOrder conf given))
    (fun y z hy hcond hstep => InOrder.step hP hy.2 hcond hstep)
    ⟨hfirst.given_prefix, fun _ => hfirst⟩ hrun
  exact ⟨hlast.1, fun hend i hi => (hlast.2 hend).held_busy hi⟩

end

/-- A destination that takes all at once. -/
def eager : Destination (List UInt8) where
  send_chain chain links heap d :=
    let sent (i : Nat) : ChainBuf :=
      let b := links.buf i
      if i ∈ chain then { b with pos := max b.pos b.last } else b
    ok (some [], { links with buf := sent }, heap, d ++ links.contents heap chain)
  lowlevel_buffered _ := false
  update_chains := .in_order
  elsewhere d d' := d' = d
  fresh d := d = []

theorem frees_in_order : UpdateChains.in_order.Frees := fun _ _ _ =>
  ⟨_, List.takeWhile_append_dropWhile.symm, fun _ hi => List.mem_takeWhile_imp hi⟩

theorem transmits_eager : Transmits eager id where
  frees := frees_in_order
  fresh h := h
  elsewhere h := h
  sent := by
    intro chain rest links links' heap heap' d d' h
    cases h
    refine ⟨⟨rfl, fun i => ?_⟩, List.nil_subset _, fun i hi _ => ?_, nofun, _, rfl, (List.append_nil _).symm⟩
    · dsimp only
      split
      · exact ⟨_, Nat.le_max_left _ _, rfl⟩
      · exact ⟨_, Nat.le_refl _, rfl⟩
    · simp only [if_pos hi, ChainBuf.ngx_buf_size]
      split
      · omega
      · rfl
  failed h := by cases h

/-- A direction from a plain source, with two segments of one byte to read. -/
def plain_relay (connected : Bool) (items : List Net.Item) : Relay Pattern (List UInt8) where
  b := ⟨100, 104, 104, 128⟩
  src := .plain ⟨items, false⟩ { Event.fresh with ready := true } false
  dst := []
  connected := connected
  dst_read := .fresh
  dst_error := false
  write_buffered := false
  ctx := false
  out := []
  busy := []
  saved := []
  links := ⟨fun _ => ⟨false, 0, 0, 0, 0, false, false, false⟩, 0⟩
  heap := ⟨⟨fun _ => 0, []⟩, ⟨fun _ => 0, []⟩⟩
  received := 0
  other_received := 0
  responses := 0
  elapsed := 0
  do_write := false
  write_timer := false
  events := []
  allocs := []
  entered := 0
  record := fun _ => []
  payload := []

def plain_conf : RelayConf := ⟨false, false, 0, 0, false, false, false, none⟩

theorem initial_plain_relay {P : Destination (List UInt8)} (hP : P.fresh []) (connected : Bool)
    (items : List Net.Item) : (plain_relay connected items).Initial plain_conf P 8 :=
  ⟨Nat.succ_ne_zero 99, rfl, by simp [plain_relay], trivial, fun _ => hP, rfl, rfl, rfl, rfl,
    by cases connected <;> rfl⟩

/-- The source has something to read again. -/
def poll (r : Relay Pattern (List UInt8)) : Relay Pattern (List UInt8) :=
  r.setSrcRead { r.src.read with ready := true }

theorem elsewhere_poll {P : Destination (List UInt8)} (r : Relay Pattern (List UInt8))
    (hP : P.elsewhere r.dst r.dst) : r.Elsewhere P (poll r) := by
  refine ⟨?_, hP, rfl⟩
  simp only [poll, setSrcRead]
  cases r.src with
  | plain rx read noise_connection => exact .plain rx rx read _ _ _
  | noise w => exact .noise w _ rfl rfl

/-- Without a noise connection only the links that an earlier call has left matter. -/
theorem vacant_of_plain {conf : RelayConf} {r : Relay S D} (hkind : r.src.is_plain = true)
    (hflag : r.src.noise_recv_action = false)
    (hfree : ∀ i ∈ r.saved ++ r.out, i < r.entered → r.b.last + r.next_size conf ≤ (r.links.buf i).pos) :
    r.Vacant conf := by
  unfold Vacant
  cases hsrc : r.src with
  | noise w =>
    rw [hsrc] at hkind
    cases hkind
  | plain rx read noise_connection =>
    rw [hsrc] at hflag
    exact ⟨fun hset => absurd (hflag.symm.trans hset) Bool.false_ne_true, fun i hi hold _ => hfree i hi hold⟩

/-- A destination that takes only two bytes where it is given one link with more of them. -/
def sluggish : Destination (List UInt8) where
  send_chain chain links heap d :=
    match chain with
    | [i] =>
      let b := links.buf i
      if 2 < b.ngx_buf_size then
        ok (some [i], links.set i { b with pos := b.pos + 2 }, heap, d ++ (heap.block b).read b.pos 2)
      else eager.send_chain [i] links heap d
    | chain => eager.send_chain chain links heap d
  lowlevel_buffered _ := false
  update_chains := .in_order
  elsewhere d d' := d' = d
  fresh d := d = []

theorem sluggish_cases {chain : List Nat} {links : Links} {heap : Heap} {d : List UInt8}
    {r : Option (List Nat) × Links × Heap × List UInt8} (h : sluggish.send_chain chain links heap d = ok r) :
    eager.send_chain chain links heap d = ok r ∨ ∃ i, chain = [i] ∧ 2 < (links.buf i).ngx_buf_size ∧
      r = (some [i], links.set i { links.buf i with pos := (links.buf i).pos + 2 }, heap,
        d ++ (heap.block (links.buf i)).read (links.buf i).pos 2) := by
  unfold sluggish at h
  dsimp only at h
  split at h
  · rename_i i
    split_ifs at h with hmore
    · cases h
      exact .inr ⟨i, rfl, hmore, rfl⟩
    · exact .inl h
  · exact .inl h

theorem transmits_sluggish : Transmits sluggish id where
  frees := frees_in_order
  fresh h := h
  elsewhere h := h
  sent := by
    intro chain rest links links' heap heap' d d' h
    obtain hall | ⟨i, rfl, hmore, hpart⟩ := sluggish_cases h
    · exact transmits_eager.sent hall
    cases hpart
    have hsize : ({ links.buf i with pos := (links.buf i).pos + 2 } : ChainBuf).ngx_buf_size + 2 =
        (links.buf i).ngx_buf_size := by
      unfold ChainBuf.ngx_buf_size at hmore ⊢
      dsimp only
      split_ifs at hmore ⊢
      · omega
      · omega
    have hregion : heap.region (links.buf i) = (heap.block (links.buf i)).read (links.buf i).pos 2 ++
        heap.region { links.buf i with pos := (links.buf i).pos + 2 } := by
      rw [Heap.region, ← hsize, Nat.add_comm, Memory.read_add]
      rfl
    refine ⟨⟨rfl, fun j => ?_⟩, List.Subset.refl _, fun j hj hnot => absurd hj hnot, fun j hj => ?_, _, rfl, ?_⟩
    · by_cases hj : j = i
      · subst hj
        exact ⟨_, Nat.le_add_right _ 2, Links.buf_set_self _ _ _⟩
      · exact ⟨_, Nat.le_refl _, Links.buf_set_of_ne _ _ hj⟩
    · obtain rfl := List.mem_singleton.mp hj
      rw [Links.buf_set_self, hregion]
      exact List.suffix_append _ _
    · rw [Links.contents_cons, Links.contents_cons, Links.contents_nil, Links.contents_nil, List.append_nil,
        List.append_nil, Links.buf_set_self]
      exact hregion
  failed := by
    intro chain links links' heap heap' d d' h
    obtain hall | ⟨i, -, -, hpart⟩ := sluggish_cases h
    · exact transmits_eager.failed hall
    · cases hpart

/-- Of the three bytes of a first call the destination takes two. The byte that a second call reads is
stored in front of the one that is left, and both go out in order. -/
theorem given_prefix_of_pending_link : ∃ r r' : Relay Pattern (List UInt8),
    r.saved = [0] ∧ r.Occupies 0 ∧ 0 < r.entered ∧ r.dst = [7, 8] ∧ r.next_size plain_conf = 1 ∧
      r'.payload = [7, 8, 9, 5] ∧ r'.dst = [7, 8, 9, 5] ∧ r'.dst <+: r'.payload := by
  have hcalls : ∃ r₁, ((plain_relay true [.data 7 [8, 9], .again, .data 5 []]).enter true 0).process_read
        plain_conf pattern_xx 9 = ok (.cont r₁) ∧
      ∃ r₂, r₁.process_write plain_conf sluggish = ok (none, r₂) ∧ r₂.entered = 0 ∧ r₂.src.is_plain = true ∧
        r₂.src.noise_recv_action = false ∧
      ∃ r₃, r₂.process_read plain_conf pattern_xx 9 = ok (.done (none, r₃)) ∧
        (r₃.leave plain_conf sluggish).1 = .returned ∧
      ∃ r, (poll (r₃.leave plain_conf sluggish).2).enter false 0 = r ∧
        r.process_write plain_conf sluggish = ok (none, r) ∧
        r.saved = [0] ∧ r.out = [] ∧ (r.links.buf 0).preread = false ∧ (r.links.buf 0).ngx_buf_size = 1 ∧
        r.entered = 1 ∧ r.dst = [7, 8] ∧ r.next_size plain_conf = 1 ∧
        r.b.last = 104 ∧ (r.links.buf 0).pos = 106 ∧ r.src.is_plain = true ∧ r.src.noise_recv_action = false ∧
      ∃ r₅, r.process_read plain_conf pattern_xx 9 = ok (.cont r₅) ∧
      ∃ r', r₅.process_write plain_conf sluggish = ok (none, r') ∧ r'.connected ∧ r'.payload = [7, 8, 9, 5] ∧
        r'.dst = [7, 8, 9, 5] :=
    ⟨_, rfl, _, rfl, rfl, rfl, rfl, _, rfl, rfl, _, rfl, rfl, rfl, rfl, rfl, rfl, rfl, rfl, rfl, rfl, rfl, rfl, rfl, _,
      rfl, _, rfl, rfl, rfl, rfl⟩
  obtain ⟨r₁, hread, r₂, hwrite, hentered₂, hkind₂, hflag₂, r₃, hend, hreturned, r, hagain, hskip, hsaved, hout,
    hpreread, hsize, hentered, hdst, hnext, hlast, hpos, hkind, hflag, r₅, hread', r', hwrite', hconnected,
    hpayload', hdst'⟩ := hcalls
  have hvacant : r.Vacant plain_conf := by
    refine vacant_of_plain hkind hflag fun i hi _ => ?_
    rw [hsaved, hout, List.append_nil, List.mem_singleton] at hi
    rw [hi, hlast, hnext, hpos]
    decide
  have hvacant₂ : r₂.Vacant plain_conf := by
    refine vacant_of_plain hkind₂ hflag₂ fun i _ hold => ?_
    rw [hentered₂] at hold
    exact absurd hold (Nat.not_lt_zero i)
  have hbehind : r₃.behind plain_conf sluggish none = (.idle, (r₃.leave plain_conf sluggish).2) := by
    rw [behind, hreturned]
    rfl
  have hleave := Step.leave (P := sluggish) r₂ r₃ none hend
  rw [hbehind] at hleave
  have hrun : Run plain_conf sluggish pattern_xx 9 (fun stage r => r.Reads plain_conf stage)
      (.idle, plain_relay true [.data 7 [8, 9], .again, .data 5 []]) (.reading, r') := by
    apply Run.tail _ nofun (.write r₅ r' hwrite')
    apply Run.tail _ (fun _ _ => hvacant) (.read r r₅ hread')
    apply Run.tail _ nofun (.write r r hskip)
    rw [← hagain]
    apply Run.tail _ nofun (.enter _ false 0)
    apply Run.tail _ nofun (.elsewhere _ _ (elsewhere_poll _ rfl))
    apply Run.tail _ (fun _ _ => hvacant₂) hleave
    apply Run.tail _ nofun (.write r₁ r₂ hwrite)
    apply Run.tail _ (fun _ _ => vacant_of_plain rfl rfl fun i hi => by cases hi) (.read _ r₁ hread)
    apply Run.tail _ nofun (.write ((plain_relay true [.data 7 [8, 9], .again, .data 5 []]).enter true 0) _ rfl)
    exact Run.of_step nofun (.enter _ true 0)
  refine ⟨r, r', hsaved, ⟨hpreread, by omega⟩, by omega, hdst, hnext, hpayload', hdst', ?_⟩
  exact (given_prefix_of_run transmits_sluggish (initial_plain_relay rfl _ _) hrun).1 hconnected

/-- Two segments in two calls, before the upstream server is connected: the second is stored over the first,
and goes out twice. -/
theorem not_given_prefix_of_two_segments : ∃ r r' : Relay Pattern (List UInt8),
    Transmits eager id ∧ r.Initial plain_conf eager 8 ∧
      Run plain_conf eager pattern_xx 9 (fun _ _ => True) (.idle, r) (.reading, r') ∧ r'.connected ∧
      r'.payload = [7, 8] ∧ r'.dst = [8, 8] ∧ ¬ r'.dst <+: r'.payload := by
  have hcalls : ∃ r₁, loop (process_body plain_conf eager pattern_xx 9) 9
        ((plain_relay false [.data 7 [], .again, .data 8 []]).enter false 0) = ok (none, r₁) ∧
      (r₁.leave plain_conf eager).1 = .returned ∧
      ∃ r₂, loop (process_body plain_conf eager pattern_xx 9) 9
        ((poll (r₁.leave plain_conf eager).2).enter false 0) = ok (none, r₂) ∧
      (r₂.leave plain_conf eager).1 = .returned ∧ (r₂.leave plain_conf eager).2.connected = false ∧
      ∃ r', (((r₂.leave plain_conf eager).2.connect plain_conf [] .fresh).enter true 0).process_write
        plain_conf eager = ok (none, r') ∧ r'.connected ∧ r'.payload = [7, 8] ∧ r'.dst = [8, 8] :=
    ⟨_, rfl, rfl, _, rfl, rfl, rfl, _, rfl, rfl, rfl, rfl⟩
  obtain ⟨r₁, hfirst, hreturned₁, r₂, hsecond, hreturned₂, hidle, r', hwrite, hconnected, hpayload, hdst⟩ :=
    hcalls
  have hbehind : ∀ t : Relay Pattern (List UInt8), (t.leave plain_conf eager).1 = .returned →
      t.behind plain_conf eager none = (.idle, (t.leave plain_conf eager).2) := by
    intro t ht
    rw [behind, ht]
    rfl
  have hrun₁ : Run plain_conf eager pattern_xx 9 (fun _ _ => True)
      (.idle, plain_relay false [.data 7 [], .again, .data 8 []]) (r₁.behind plain_conf eager none) :=
    run_of_loop (fun _ _ => trivial) hfirst
  have hrun₂ : Run plain_conf eager pattern_xx 9 (fun _ _ => True)
      (.idle, poll (r₁.leave plain_conf eager).2) (r₂.behind plain_conf eager none) :=
    run_of_loop (fun _ _ => trivial) hsecond
  rw [hbehind r₁ hreturned₁] at hrun₁
  rw [hbehind r₂ hreturned₂] at hrun₂
  refine ⟨plain_relay false [.data 7 [], .again, .data 8 []], r', transmits_eager, initial_plain_relay rfl _ _, ?_,
    hconnected, hpayload, hdst, ?_⟩
  · apply Run.tail _ trivial (.write _ r' hwrite)
    apply Run.tail _ trivial (.enter _ true 0)
    apply Run.tail _ trivial (.connect _ [] .fresh hidle rfl)
    exact (hrun₁.tail trivial (.elsewhere _ _ (elsewhere_poll _ rfl))).trans hrun₂
  · rw [hpayload, hdst]
    decide

end Relay

end ngx_nsoc
