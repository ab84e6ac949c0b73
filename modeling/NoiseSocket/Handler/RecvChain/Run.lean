import NoiseSocket.Handler.RecvChain

open Exec Exec.Result

namespace ngx_nsoc

variable {S : Type}

/-- A call of `ngx_nsoc_recv_chain`, from the connection on entry to where its loop has come. -/
structure ChainCall (S : Type) where
  cl : FreeChain
  limit : Int
  entry : Endpoint S
  flow : ControlFlow (RecvChain S) (Int × Endpoint S)

namespace ChainCall

def start (w : Endpoint S) (cl : FreeChain) (limit : Int) : ChainCall S :=
  ⟨cl, limit, w, .cont (.enter w cl)⟩

def connection (x : ChainCall S) : Endpoint S :=
  match x.flow with
  | .cont y => y.w
  | .done r => r.2

/-- How many bytes of its chain the call counts as data. -/
def bytes (x : ChainCall S) : Nat :=
  match x.flow with
  | .cont y => y.bytes
  | .done r => r.1.toNat

/-- What the call counts as data. -/
def accounted (x : ChainCall S) : List UInt8 :=
  FreeBuf.account x.connection.mem x.cl.bufs x.bytes

end ChainCall

/-- The events of a connection change between two calls. -/
def Endpoint.setReadEvent (w : Endpoint S) (read : Event) : Endpoint S := { w with c := { w.c with read } }

/-- Calls of `ngx_nsoc_recv_chain` one after the other, each with a chain and a limit of its own, as far as
every `c->recv` in them is `met`. The index is what the calls that have returned counted as data. -/
inductive ChainRun (N : NoiseC S) (fuel : Nat) (met : Nat → Nat → Endpoint S → Prop) (w : Endpoint S) :
    List UInt8 → ChainCall S → Prop
  | first (cl : FreeChain) (limit : Int) : ChainRun N fuel met w [] (.start w cl limit)
  | pass {got : List UInt8} {x : ChainCall S} {y : RecvChain S}
      {flow : ControlFlow (RecvChain S) (Int × Endpoint S)} (hrun : ChainRun N fuel met w got x)
      (hat : x.flow = .cont y) (hmet : ¬ y.Reached x.limit → met y.last (y.size x.limit) y.w)
      (hpass : y.recv_chain_body N fuel x.limit = ok flow) : ChainRun N fuel met w got { x with flow }
  | next {got : List UInt8} {x : ChainCall S} {r : Int × Endpoint S} (hrun : ChainRun N fuel met w got x)
      (hat : x.flow = .done r) (read : Event) (cl : FreeChain) (limit : Int) :
      ChainRun N fuel met w (got ++ x.accounted) (.start (r.2.setReadEvent read) cl limit)

namespace RecvChain

/-- The buffers of the chain in front of `b` are full, and `b` is filled up to `last`. -/
structure Filling (cl : FreeChain) (full : List FreeBuf) (x : RecvChain S) : Prop where
  bufs : cl.bufs = full ++ x.b :: x.next
  low : x.b.last ≤ x.last
  high : x.last ≤ x.b.stop
  bytes : x.bytes = (full.map FreeBuf.room).sum + (x.last - x.b.last)

section

variable {N : NoiseC S} {fuel : Nat} {limit : Int} {cl : FreeChain} {full : List FreeBuf} {x : RecvChain S}
  {frames payloads : List (List UInt8)}

theorem Filling.enter (w : Endpoint S) (cl : FreeChain) : Filling cl [] (RecvChain.enter w cl) :=
  ⟨rfl, Nat.le_refl _, cl.buf.hle, by simp [RecvChain.enter]⟩

theorem size_le (limit : Int) (x : RecvChain S) : x.size limit ≤ x.b.stop - x.last := by
  unfold size
  dsimp only
  split_ifs <;> omega

theorem Filling.account (h : Filling cl full x) (mem : Memory) {n : Nat} (hn : x.last + n ≤ x.b.stop) :
    FreeBuf.account mem cl.bufs (x.bytes + n) =
      FreeBuf.account mem full (full.map FreeBuf.room).sum ++
        (mem.read x.b.last (x.last - x.b.last) ++ mem.read x.last n) := by
  have hlow := h.low
  rw [h.bufs, h.bytes, Nat.add_assoc, FreeBuf.account_full, FreeBuf.account_within, Memory.read_add,
    Nat.add_sub_cancel' h.low]
  simp only [FreeBuf.room]
  omega

/-- The buffers that are full, and the filled part of the next one, are apart from what is offered. -/
theorem Filling.account_add (h : Filling cl full x) {mem : Memory} {size n : Nat}
    (hwithin : x.w.mem.WritesWithin mem (Set.Ico x.last (x.last + size)))
    (hsize : size ≤ x.b.stop - x.last) (hn : n ≤ size) :
    FreeBuf.account mem cl.bufs (x.bytes + n) =
      FreeBuf.account x.w.mem cl.bufs x.bytes ++ mem.read x.last n := by
  have hlow := h.low
  have hhigh := h.high
  have hbefore := h.account x.w.mem (n := 0) (by omega)
  rw [Nat.add_zero, Memory.read_zero, List.append_nil] at hbefore
  rw [h.account mem (by omega), hbefore, List.append_assoc]
  have hsub : Set.Ico x.last (x.last + size) ⊆ x.b.space := by
    intro y hy
    have hge := hy.1
    have hlt := hy.2
    exact ⟨by omega, by omega⟩
  have hapart := cl.apart
  rw [show cl.buf :: cl.next = full ++ x.b :: x.next from h.bufs, List.pairwise_append] at hapart
  congr 1
  · refine FreeBuf.account_congr hwithin (fun b hb => ?_) _
    exact fun y hy hoffered => hapart.2.2 b hb x.b List.mem_cons_self y hy (hsub hoffered)
  · rw [hwithin.read]
    intro y hy
    have hge := hy.1
    omega

theorem Filling.within (h : Filling cl full x) (hsize : x.size limit ≤ x.b.stop - x.last) :
    Set.Ico x.last (x.last + x.size limit) ⊆ cl.space := by
  intro y hy
  have hlow := h.low
  have hhigh := h.high
  have hge := hy.1
  have hlt := hy.2
  refine ⟨x.b, ?_, by omega, by omega⟩
  rw [h.bufs]
  exact List.mem_append_right _ List.mem_cons_self

/-- What a pass adds: the frames that it has finished, to what the chain holds. -/
structure Added (N : NoiseC S) (cl : FreeChain) (frames payloads : List (List UInt8)) (x : RecvChain S)
    (k n : Nat) (v : Endpoint S) : Prop where
  ahead : Endpoint.Ahead N (frames.drop k) (payloads.drop k) v
  within : x.w.mem.WritesWithin v.mem cl.space
  account : FreeBuf.account v.mem cl.bufs n =
    FreeBuf.account x.w.mem cl.bufs x.bytes ++ (payloads.take k).flatten

/-- One pass. -/
theorem recv_chain_body_spec (h : Filling cl full x) (hahead : Endpoint.Ahead N frames payloads x.w)
    (hcall : ¬ x.Reached limit → Endpoint.Accounts N fuel x.last (x.size limit) frames payloads x.w) :
    ∃ flow k, x.recv_chain_body N fuel limit = ok flow ∧
      flow.Holds (fun y => (∃ full', Filling cl full' y) ∧ Added N cl frames payloads x k y.bytes y.w)
        fun r => Added N cl frames payloads x k r.1.toNat r.2 := by
  unfold recv_chain_body
  by_cases hreached : x.Reached limit
  · rw [if_pos hreached]
    exact ⟨_, 0, rfl, ⟨hahead, .refl _ _, by simp⟩⟩
  obtain ⟨r, k, hr, hle, hwithin, hread, hahead'⟩ := hcall hreached
  have hsize := x.size_le limit
  have hn : r.1.toNat ≤ x.size limit := by omega
  have hadded : ∀ v : Endpoint S, v.mem = r.2.mem → Endpoint.Ahead N (frames.drop k) (payloads.drop k) v →
      Added N cl frames payloads x k (x.bytes + r.1.toNat) v := by
    intro v hmem hv
    refine ⟨hv, ?_, ?_⟩
    · rw [hmem]
      exact hwithin.mono (h.within hsize)
    · rw [hmem, h.account_add hwithin hsize hn, hread]
  have hlow := h.low
  have hhigh := h.high
  rw [if_neg hreached, hr, bind_ok]
  dsimp only
  by_cases hpos : 0 < r.1
  · rw [if_pos hpos]
    by_cases hfull : x.last + r.1.toNat = x.b.stop
    · rw [if_pos hfull]
      cases hnext : x.next with
      | nil => exact ⟨_, k, rfl, hadded r.2 rfl hahead'⟩
      | cons b next =>
        refine ⟨_, k, rfl, ⟨full ++ [x.b], ?_, Nat.le_refl _, b.hle, ?_⟩, hadded r.2 rfl hahead'⟩
        · rw [h.bufs, hnext, List.append_assoc]
          rfl
        · simp only [h.bytes, List.map_append, List.map_cons, List.map_nil, List.sum_append, List.sum_cons,
            List.sum_nil, FreeBuf.room, Nat.sub_self, Nat.add_zero]
          omega
    · rw [if_neg hfull]
      refine ⟨_, k, rfl, ⟨full, h.bufs, ?_, ?_, ?_⟩, hadded r.2 rfl hahead'⟩
      · dsimp only
        omega
      · dsimp only
        omega
      · dsimp only
        rw [h.bytes]
        omega
  · rw [if_neg hpos]
    have hzero : r.1.toNat = 0 := by omega
    by_cases hbytes : x.bytes ≠ 0
    · rw [if_pos hbytes]
      refine ⟨_, k, rfl, ?_⟩
      have hready : Endpoint.Ahead N (frames.drop k) (payloads.drop k) (r.2.setReadReady true) :=
        hahead'.of_eq rfl rfl rfl rfl rfl rfl
      rw [← Nat.add_zero x.bytes, ← hzero]
      split_ifs
      · exact hadded _ rfl hready
      · exact hadded _ rfl hahead'
    · rw [if_neg hbytes]
      refine ⟨_, k, rfl, ?_⟩
      have hsame := hadded r.2 rfl hahead'
      rwa [not_not.mp hbytes, Nat.zero_add] at hsame

end

end RecvChain

/-- A state of a run: the frames that are ahead of the connection, and what has been counted as data. -/
structure ChainCall.Sound (N : NoiseC S) (frames payloads : List (List UInt8)) (got : List UInt8)
    (x : ChainCall S) (k : Nat) : Prop where
  ahead : Endpoint.Ahead N (frames.drop k) (payloads.drop k) x.connection
  accounted : got ++ x.accounted = (payloads.take k).flatten
  within : x.entry.mem.WritesWithin x.connection.mem x.cl.space
  filling : ∀ y, x.flow = .cont y → ∃ full, RecvChain.Filling x.cl full y

section

variable {N : NoiseC S} {fuel : Nat} {w : Endpoint S} {frames payloads : List (List UInt8)} {got : List UInt8}
  {x : ChainCall S}

theorem ChainCall.Sound.start {k : Nat} {w : Endpoint S}
    (hahead : Endpoint.Ahead N (frames.drop k) (payloads.drop k) w)
    (hgot : got = (payloads.take k).flatten) (cl : FreeChain) (limit : Int) :
    (ChainCall.start w cl limit).Sound N frames payloads got k := by
  refine ⟨hahead, ?_, .refl _ _, ?_⟩
  · simp [ChainCall.accounted, ChainCall.bytes, ChainCall.start, RecvChain.enter, hgot]
  · rintro _ ⟨⟩
    exact ⟨[], .enter w cl⟩

/-- One pass of a run. -/
theorem ChainCall.Sound.pass {k : Nat} {y : RecvChain S} (hfuel : 65536 ≤ fuel)
    (h : x.Sound N frames payloads got k) (hat : x.flow = .cont y)
    (hmet : ¬ y.Reached x.limit → Endpoint.Placed N y.last (y.size x.limit) y.w) :
    ∃ flow, y.recv_chain_body N fuel x.limit = ok flow ∧
      ∃ k, ChainCall.Sound N frames payloads got { x with flow } k := by
  obtain ⟨full, hfilling⟩ := h.filling y hat
  have hconnection : x.connection = y.w := by rw [ChainCall.connection, hat]
  have haddr : y.last ≠ 0 := by
    have hmem : y.b ∈ x.cl.bufs := by
      rw [hfilling.bufs]
      exact List.mem_append_right _ List.mem_cons_self
    have hne := x.cl.addressed y.b hmem
    have hlow := hfilling.low
    omega
  have hahead := h.ahead
  rw [hconnection] at hahead
  obtain ⟨flow, k', hflow, hholds⟩ := RecvChain.recv_chain_body_spec hfilling hahead
    fun hcall => (Endpoint.recv_accounts_iff hfuel haddr hahead).mpr (hmet hcall)
  have haccounted := h.accounted
  rw [ChainCall.accounted, ChainCall.bytes, hconnection, hat] at haccounted
  have hwithin := h.within
  rw [hconnection] at hwithin
  have hnext : ∀ {n v}, RecvChain.Added N x.cl (frames.drop k) (payloads.drop k) y k' n v →
      Endpoint.Ahead N (frames.drop (k + k')) (payloads.drop (k + k')) v ∧
        got ++ FreeBuf.account v.mem x.cl.bufs n = (payloads.take (k + k')).flatten ∧
        x.entry.mem.WritesWithin v.mem x.cl.space := by
    intro n v hadded
    refine ⟨?_, ?_, hwithin.trans hadded.within⟩
    · have hv := hadded.ahead
      rwa [List.drop_drop, List.drop_drop] at hv
    · rw [hadded.account, ← List.append_assoc, haccounted, List.take_add, List.flatten_append]
  refine ⟨flow, hflow, k + k', ?_⟩
  cases flow with
  | cont z =>
    obtain ⟨hfull, hadded⟩ := hholds
    obtain ⟨hz, hgot, hspace⟩ := hnext hadded
    refine ⟨hz, hgot, hspace, ?_⟩
    rintro _ ⟨⟩
    exact hfull
  | done r =>
    have hadded : RecvChain.Added N x.cl (frames.drop k) (payloads.drop k) y k' r.1.toNat r.2 := hholds
    obtain ⟨hr, hgot, hspace⟩ := hnext hadded
    refine ⟨hr, hgot, hspace, ?_⟩
    intro z hz
    cases hz

/-- A run. The induction is on its passes and calls. -/
theorem ChainRun.sound (hfuel : 65536 ≤ fuel) (hw : Endpoint.Ahead N frames payloads w)
    (h : ChainRun N fuel (Endpoint.Placed N) w got x) : ∃ k, x.Sound N frames payloads got k := by
  induction h with
  | first cl limit => exact ⟨0, .start hw (show [] = (payloads.take 0).flatten from rfl) cl limit⟩
  | pass hrun hat hmet hpass ih =>
    obtain ⟨k, hk⟩ := ih
    obtain ⟨flow, hflow, hsound⟩ := hk.pass hfuel hat hmet
    obtain rfl := Result.ok.inj (hpass.symm.trans hflow)
    exact hsound
  | @next got x r hrun hat read cl limit ih =>
    obtain ⟨k, hk⟩ := ih
    have hahead := hk.ahead
    rw [ChainCall.connection, hat] at hahead
    have hevent : Endpoint.Ahead N (frames.drop k) (payloads.drop k) (r.2.setReadEvent read) :=
      hahead.of_eq rfl rfl rfl rfl rfl rfl
    exact ⟨k, .start hevent hk.accounted cl limit⟩

theorem RecvChain.Filling.bytes_le {cl : FreeChain} {full : List FreeBuf} {y : RecvChain S}
    (h : Filling cl full y) : y.bytes ≤ (cl.bufs.map FreeBuf.room).sum := by
  have hhigh := h.high
  rw [h.bytes, h.bufs, List.map_append, List.map_cons, List.sum_append, List.sum_cons, FreeBuf.room]
  omega

/-- A pass that goes round again has counted more bytes. -/
theorem RecvChain.bytes_lt_of_cont {limit : Int} {y z : RecvChain S}
    (h : y.recv_chain_body N fuel limit = ok (.cont z)) : y.bytes < z.bytes := by
  unfold recv_chain_body at h
  by_cases hreached : y.Reached limit
  · rw [if_pos hreached] at h
    cases h
  rw [if_neg hreached, bind_eq_ok_iff] at h
  obtain ⟨r, -, hrest⟩ := h
  by_cases hpos : 0 < r.1
  · rw [if_pos hpos] at hrest
    dsimp only at hrest
    split_ifs at hrest
    · cases hnext : y.next with
      | nil =>
        rw [hnext] at hrest
        cases hrest
      | cons b next =>
        rw [hnext] at hrest
        cases hrest
        dsimp only
        omega
    · cases hrest
      dsimp only
      omega
  · rw [if_neg hpos] at hrest
    split_ifs at hrest <;> cases hrest

/-- The loop of a call returns, and the run gets to what it returns: a pass that goes round again has filled
a part of the chain. -/
theorem recv_chain_returns (hfuel : 65536 ≤ fuel) (hw : Endpoint.Ahead N frames payloads w) (cl : FreeChain)
    (limit : Int) {passes : Nat} (hpasses : (cl.bufs.map FreeBuf.room).sum < passes)
    (hmet : ∀ y, ChainRun N fuel (Endpoint.Placed N) w [] ⟨cl, limit, w, .cont y⟩ → ¬ y.Reached limit →
      Endpoint.Placed N y.last (y.size limit) y.w) :
    ∃ r, recv_chain N fuel passes w cl limit = ok r ∧
      ChainRun N fuel (Endpoint.Placed N) w [] ⟨cl, limit, w, .done r⟩ := by
  have hstart : ChainRun N fuel (Endpoint.Placed N) w [] ⟨cl, limit, w, .cont (.enter w cl)⟩ := .first cl limit
  have hbounded : ∀ y, ChainRun N fuel (Endpoint.Placed N) w [] ⟨cl, limit, w, .cont y⟩ →
      y.bytes ≤ (cl.bufs.map FreeBuf.room).sum := by
    intro y hrun
    obtain ⟨k, hk⟩ := hrun.sound hfuel hw
    obtain ⟨full, hfilling⟩ := hk.filling y rfl
    exact hfilling.bytes_le
  obtain ⟨r, hr⟩ : ∃ r, recv_chain N fuel passes w cl limit = ok r := by
    refine loop_ok (fun y => ChainRun N fuel (Endpoint.Placed N) w [] ⟨cl, limit, w, .cont y⟩)
      (fun y => (cl.bufs.map FreeBuf.room).sum - y.bytes) ?_ hstart (by omega)
    intro y hrun
    obtain ⟨k, hk⟩ := hrun.sound hfuel hw
    obtain ⟨flow, hflow, -⟩ := hk.pass hfuel rfl (hmet y hrun)
    refine ⟨flow, hflow, ?_⟩
    rintro z rfl
    have hnext : ChainRun N fuel (Endpoint.Placed N) w [] ⟨cl, limit, w, .cont z⟩ :=
      .pass hrun rfl (hmet y hrun) hflow
    have hmore := RecvChain.bytes_lt_of_cont hflow
    have hle := hbounded z hnext
    exact ⟨hnext, by omega⟩
  refine ⟨r, hr, ?_⟩
  refine loop_holds (fun y => ChainRun N fuel (Endpoint.Placed N) w [] ⟨cl, limit, w, .cont y⟩)
    (fun r => ChainRun N fuel (Endpoint.Placed N) w [] ⟨cl, limit, w, .done r⟩) ?_ hstart hr
  intro y flow hrun hflow
  have hnext := ChainRun.pass hrun rfl (hmet y hrun) hflow
  cases flow with
  | cont z => exact hnext
  | done r => exact hnext

end

end ngx_nsoc
