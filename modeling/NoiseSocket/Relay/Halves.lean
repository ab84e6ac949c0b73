import NoiseSocket.Relay

open Exec Exec.Result

namespace ngx_nsoc

variable {S D : Type}

@[simp]
theorem Source.noise_recv_action_setRead (read : Event) (src : Source S) :
    (src.setRead read).noise_recv_action = src.noise_recv_action := by
  cases src <;> rfl

@[simp]
theorem Source.read_setRead (read : Event) (src : Source S) : (src.setRead read).read = read := by
  cases src <;> rfl

@[simp]
theorem Source.setRead_setRead (read read' : Event) (src : Source S) :
    (src.setRead read).setRead read' = src.setRead read' := by
  cases src <;> rfl

theorem Source.setRead_read (src : Source S) : src.setRead src.read = src := by
  cases src <;> rfl

@[simp]
theorem Source.is_plain_setRead (read : Event) (src : Source S) :
    (src.setRead read).is_plain = src.is_plain := by
  cases src <;> rfl

@[simp]
theorem Source.payload_addr_setRead (read : Event) (b : RawBuf) (src : Source S) :
    (src.setRead read).payload_addr b = src.payload_addr b := by
  cases src <;> rfl

theorem Source.Elsewhere.is_plain_eq {src src' : Source S} (h : src.Elsewhere src') :
    src'.is_plain = src.is_plain := by
  cases h <;> rfl

namespace Relay

/-- What the account changes, and when it ends the stream. -/
theorem account_cases (conf : RelayConf) (n : Nat) (r : Relay S D) :
    ∃ responses read, r.account conf n = { r with responses, src := r.src.setRead read } ∧
      read.eof = (r.src.read.eof || conf.dgram && r.responses + 1 == conf.responses) := by
  have hdelay : ∃ read, (if conf.limit_rate ≠ 0 ∧ 0 < n * 1000 / conf.limit_rate then r.delay else r) =
      { r with src := r.src.setRead read } ∧ read.eof = r.src.read.eof := by
    split_ifs
    · exact ⟨_, rfl, rfl⟩
    · exact ⟨r.src.read, by rw [Source.setRead_read], rfl⟩
  obtain ⟨read, hdelay, heof⟩ := hdelay
  unfold account
  rw [hdelay]
  by_cases hdgram : conf.dgram = true
  · by_cases hresponses : r.responses + 1 = conf.responses
    · refine ⟨r.responses + 1, { read with ready := false, eof := true }, ?_, ?_⟩
      · simp [hdgram, hresponses, setSrcRead]
      · simp [hdgram, hresponses]
    · refine ⟨r.responses + 1, read, ?_, ?_⟩
      · simp [hdgram, hresponses]
      · simp [hdgram, hresponses, heof]
  · refine ⟨r.responses, read, ?_, ?_⟩
    · simp [hdgram]
    · simp [hdgram, heof]

/-- What a call of `recv` leaves, but for the link of its block. -/
def after_recv (got : Int × Memory × Source S) (read : Event) (responses : Nat) (allocs : List Bool)
    (r : Relay S D) : Relay S D :=
  { r with src := got.2.2.setRead read, heap := { r.heap with relay := got.2.1 }, responses, allocs }

section

variable {conf : RelayConf} {got : Int × Memory × Source S} {r r' : Relay S D}

theorem take_received_cont (h : r.take_received conf got = .cont r') :
    ¬ (got.1 = NGX_ERROR ∧ conf.dgram ∧ r.u_received conf = 0) ∧ 0 ≤ taken got.1 ∧
      (((r.behind_recv got).account conf (taken got.1).toNat).ngx_allocs 1).1 = true ∧
      r' = (((r.behind_recv got).account conf (taken got.1).toNat).ngx_allocs 1).2.add_link
        (taken got.1).toNat := by
  unfold take_received at h
  dsimp only at h
  split_ifs at h with hudp hneg hgranted
  cases h
  exact ⟨hudp, by omega, hgranted, rfl⟩

theorem mem_add_link {r : Relay S D} {n i : Nat} :
    i ∈ (r.add_link n).saved ++ (r.add_link n).out ↔ i ∈ r.saved ++ r.out ∨ i = r.links.made := by
  simp [add_link, or_assoc]

theorem buf_add_link_self (r : Relay S D) (n : Nat) :
    (r.add_link n).links.buf r.links.made =
      { preread := false, start := r.b.start, pos := r.b.last, last := r.b.last + n, stop := r.b.stop
        temporary := n ≠ 0, last_buf := r.src.read.eof, flush := true } :=
  Links.buf_make_self r.links _

theorem buf_add_link_of_lt {r : Relay S D} {n i : Nat} (hi : i < r.links.made) :
    (r.add_link n).links.buf i = r.links.buf i :=
  r.links.buf_make_of_lt _ hi

theorem behind_recv_eq (got : Int × Memory × Source S) (r : Relay S D) :
    ∃ read, r.behind_recv got = r.after_recv got read r.responses r.allocs := by
  unfold behind_recv
  dsimp only
  split_ifs
  · exact ⟨_, rfl⟩
  · refine ⟨got.2.2.read, ?_⟩
    rw [after_recv, Source.setRead_read]

theorem account_behind_recv (conf : RelayConf) (n : Nat) (got : Int × Memory × Source S) (r : Relay S D) :
    ∃ read responses, (r.behind_recv got).account conf n = r.after_recv got read responses r.allocs := by
  obtain ⟨read, hbehind⟩ := behind_recv_eq got r
  obtain ⟨responses, read', haccount, -⟩ := account_cases conf n (r.behind_recv got)
  refine ⟨read', responses, ?_⟩
  rw [haccount, hbehind]
  simp [after_recv]

/-- The size of the block that the next read of a plain source hands over. -/
def next_size (conf : RelayConf) (r : Relay S D) : Nat :=
  match r.src with
  | .plain rx _ _ => (taken (answerCode (rx.recv (r.read_size conf)).1)).toNat
  | .noise _ => 0

/-- What `recv` of a plain source returns. -/
theorem recv_of_plain {N : NoiseC S} {fuel : Nat} {got : Int × Memory × Source S}
    (hplain : r.src.is_plain = true)
    (hrecv : r.src.recv N fuel r.heap.relay r.read_addr (r.read_size conf) = ok got) :
    got.2.2.is_plain = true ∧ (taken got.1).toNat = r.next_size conf := by
  unfold next_size
  cases hsrc : r.src with
  | plain rx read noise_connection =>
    rw [hsrc] at hrecv
    cases hrecv
    exact ⟨rfl, rfl⟩
  | noise w =>
    rw [hsrc] at hplain
    cases hplain

/-- Everything that the reading half of a pass does. -/
inductive ReadHalf (conf : RelayConf) (N : NoiseC S) (fuel : Nat) (r : Relay S D) :
    ControlFlow (Relay S D) (Option ProcessExit × Relay S D) → Prop where
  | idle : ReadHalf conf N fuel r (.done (none, r))
  | delayed : ReadHalf conf N fuel r (.done (none, r.delay))
  | left {got : Int × Memory × Source S} (hreadable : r.readable)
      (hrecv : r.src.recv N fuel r.heap.relay r.read_addr (r.read_size conf) = ok got)
      (exit : Option ProcessExit) (read : Event) (responses : Nat) (allocs : List Bool) :
      ReadHalf conf N fuel r (.done (exit, r.after_recv got read responses allocs))
  | link {got : Int × Memory × Source S} (hreadable : r.readable)
      (hrecv : r.src.recv N fuel r.heap.relay r.read_addr (r.read_size conf) = ok got)
      (hn : 0 ≤ taken got.1) (read : Event) (responses : Nat) (allocs : List Bool) :
      ReadHalf conf N fuel r
        (.cont ((r.after_recv got read responses allocs).add_link (taken got.1).toNat))

theorem read_half {N : NoiseC S} {fuel : Nat}
    {flow : ControlFlow (Relay S D) (Option ProcessExit × Relay S D)}
    (h : r.process_read conf N fuel = ok flow) : ReadHalf conf N fuel r flow := by
  unfold process_read at h
  split_ifs at h with hreadable hlimit
  · cases h
    exact .delayed
  · obtain ⟨got, hrecv, hrest⟩ := bind_eq_ok_iff.mp h
    obtain rfl := Result.ok.inj hrest
    obtain ⟨read, responses, haccount⟩ := account_behind_recv conf (taken got.1).toNat got r
    unfold take_received
    dsimp only
    rw [haccount]
    split_ifs with hudp hneg hgranted
    · have hsame : got.2.2.setRead got.2.2.read = got.2.2 := got.2.2.setRead_read
      have hleft := ReadHalf.left hreadable hrecv (some .next_upstream) got.2.2.read r.responses r.allocs
      rw [after_recv, hsame] at hleft
      exact hleft
    · obtain ⟨read', hbehind⟩ := behind_recv_eq got r
      rw [hbehind]
      exact .left hreadable hrecv none read' r.responses r.allocs
    · exact .link hreadable hrecv (by omega) read responses _
    · exact .left hreadable hrecv _ read responses _
  · cases h
    exact .idle

/-- Everything that the write filter does: what it returns, and what it leaves. Where it has not passed
its chain on, the links are as they were. -/
inductive Filtered (conf : RelayConf) (P : Destination D) (r : Relay S D) : Int × Relay S D → Prop where
  | refused (allocs : List Bool) : Filtered conf P r (NGX_ERROR, { r with allocs, ctx := true })
  | useless (allocs : List Bool) :
      Filtered conf P r (NGX_ERROR, { r with allocs, ctx := true, saved := r.saved ++ r.out })
  | empty (allocs : List Bool) (hsize : r.links.size (r.saved ++ r.out) = 0)
      (hbuffered : P.lowlevel_buffered r.dst = false) :
      Filtered conf P r (NGX_OK, { r with allocs, ctx := true, saved := [], write_buffered := false })
  | failed {links : Links} {heap : Heap} {dst : D} (allocs : List Bool)
      (hsend : P.send_chain (r.saved ++ r.out) r.links r.heap r.dst = ok (none, links, heap, dst)) :
      Filtered conf P r (NGX_ERROR, { r with
        allocs, ctx := true, links, heap, dst, saved := r.saved ++ r.out, dst_error := true })
  | sent {rest : List Nat} {links : Links} {heap : Heap} {dst : D} (allocs : List Bool) (rc : Int)
      (write_buffered : Bool)
      (hsend : P.send_chain (r.saved ++ r.out) r.links r.heap r.dst = ok (some rest, links, heap, dst)) :
      Filtered conf P r (rc, { r with allocs, ctx := true, links, heap, dst, saved := rest, write_buffered })

theorem filtered {P : Destination D} {s : Int × Relay S D} (h : r.write_filter conf P = ok s) :
    Filtered conf P r s := by
  obtain ⟨granted, allocs, hallocs⟩ : ∃ granted allocs,
      r.ngx_allocs ((if r.ctx then 0 else 1) + r.out.length) = (granted, { r with allocs }) := ⟨_, _, rfl⟩
  unfold write_filter at h
  rw [hallocs] at h
  dsimp only at h
  split_ifs at h with hrefused hidle hflush
  · cases h
    exact .refused _
  · cases h
    apply Filtered.empty
    · exact hidle.1
    · simpa using hidle.2.1
  · cases h
    exact .useless _
  -- a connection that others write too is not waited for
  all_goals
    obtain ⟨⟨rest, links, heap, dst⟩, hsend, hrest⟩ := bind_eq_ok_iff.mp h
    cases rest with
    | none =>
      cases hrest
      exact .failed _ hsend
    | some rest =>
      cases rest with
      | nil =>
        cases hrest
        exact .sent _ _ _ hsend
      | cons i rest =>
        cases hrest
        exact .sent _ _ _ hsend

/-- Behind the write filter: the positions of the buffer go back where no link is busy. -/
def rewind (r : Relay S D) : Relay S D := if r.busy = [] then r.reset else r

/-- A connection gets a link for what was read in the preread phase, or no link. -/
theorem connect_cases (conf : RelayConf) (dst : D) (dst_read : Event) (r : Relay S D) :
    (∃ read, r.connect conf dst dst_read = { r with dst, dst_read := read, connected := true } ∧
        ∀ buffer, conf.preread = some buffer → ¬ buffer.pos < buffer.last) ∨
      ∃ buffer read record, conf.preread = some buffer ∧ buffer.pos < buffer.last ∧
        r.connect conf dst dst_read = { r with
          dst, dst_read := read, connected := true, out := r.links.made :: r.out, record
          links := (r.links.make
            { preread := true, start := buffer.start, pos := buffer.pos, last := buffer.last
              stop := buffer.stop, temporary := true, last_buf := conf.dgram, flush := true }).2 } ∧
        record = fun i => if i = r.links.made then
          r.heap.preread.read buffer.pos (buffer.last - buffer.pos) else r.record i := by
  unfold connect
  cases hpreread : conf.preread with
  | none => exact .inl ⟨_, rfl, nofun⟩
  | some buffer =>
    dsimp only
    by_cases hbytes : buffer.pos < buffer.last
    · rw [if_pos hbytes]
      exact .inr ⟨buffer, _, _, rfl, hbytes, rfl, rfl⟩
    · rw [if_neg hbytes]
      refine .inl ⟨_, rfl, ?_⟩
      rintro other ⟨⟩
      exact hbytes

theorem handle_event_eq (shared : Bool) (r : Relay S D) :
    ∃ handled events, (if shared then (true, r) else r.ngx_handle_event) = (handled, { r with events }) := by
  cases shared
  · exact ⟨_, _, rfl⟩
  · exact ⟨true, r.events, rfl⟩

/-- The end of a call leaves all but the events and the timer. -/
theorem leave_eq (conf : RelayConf) (P : Destination D) (r : Relay S D) :
    ∃ events write_timer, (r.leave conf P).2 = { r with events, write_timer } := by
  obtain ⟨read, events, hread⟩ := handle_event_eq conf.src_shared r
  obtain ⟨write, events', hwrite⟩ := handle_event_eq conf.dst_shared { r with events }
  unfold leave
  dsimp only
  rw [hread, hwrite]
  split_ifs
  all_goals exact ⟨_, _, rfl⟩

theorem rewind_eq (r : Relay S D) : ∃ b, r.rewind = { r with b } ∧ (r.busy ≠ [] → b = r.b) := by
  unfold rewind
  split_ifs with hbusy
  · exact ⟨_, rfl, fun hnot => absurd hbusy hnot⟩
  · exact ⟨r.b, rfl, fun _ => rfl⟩

/-- Everything that the writing half of a pass does. -/
inductive WriteHalf (conf : RelayConf) (P : Destination D) (r : Relay S D) :
    Option ProcessExit × Relay S D → Prop where
  | skipped : WriteHalf conf P r (none, r)
  | ended {s : Relay S D} (hconnected : r.connected) (hdo_write : r.do_write) (exit : ProcessExit)
      (hfiltered : Filtered conf P r (NGX_ERROR, s)) : WriteHalf conf P r (some exit, s)
  | written {rc : Int} {s : Relay S D} (hconnected : r.connected) (hdo_write : r.do_write)
      (hfiltered : Filtered conf P r (rc, s)) (hrc : rc ≠ NGX_ERROR) :
      WriteHalf conf P r (none, (s.update_chains P).rewind)

theorem write_half {P : Destination D} {s : Option ProcessExit × Relay S D}
    (h : r.process_write conf P = ok s) : WriteHalf conf P r s := by
  unfold process_write at h
  by_cases hwrite : r.do_write ∧ r.connected ∧ (r.out ≠ [] ∨ r.busy ≠ [] ∨ r.dst_buffered P)
  · rw [if_pos hwrite] at h
    obtain ⟨⟨rc, t⟩, hfilter, hrest⟩ := bind_eq_ok_iff.mp h
    have hfiltered := filtered hfilter
    by_cases herror : rc = NGX_ERROR
    · rw [if_pos herror] at hrest
      cases hrest
      rw [herror] at hfiltered
      exact .ended hwrite.2.1 hwrite.1 _ hfiltered
    · rw [if_neg herror] at hrest
      cases hrest
      exact .written hwrite.2.1 hwrite.1 hfiltered herror
  · rw [if_neg hwrite] at h
    cases h
    exact .skipped

end

end Relay

end ngx_nsoc
