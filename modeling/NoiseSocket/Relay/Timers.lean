import NoiseSocket.Relay.Halves

open Exec Exec.Result

namespace ngx_nsoc

variable {S D : Type}

/-- The timer of a read event is armed exactly while the rate keeps the connection from being read. -/
def Event.Timed (ev : Event) : Prop := ev.timer_set = ev.delayed

theorem Event.timed_afterRecv {ev : Event} (h : ev.Timed) (answer : Net.Answer) :
    (ev.afterRecv answer).Timed := by
  rcases answer with (_ | ⟨_, _⟩) | _ | _ | _
  all_goals exact h

namespace Endpoint

/-- What `ngx_nsoc_recv` never touches: whether a read is delayed, and its timer. -/
def waits (w : Endpoint S) : Bool × Bool := (w.c.read.delayed, w.c.read.timer_set)

theorem waits_ngx_recv (w : Endpoint S) (part : Part) (size : Nat) :
    (w.ngx_recv part size).2.2.waits = w.waits := by
  simp only [ngx_recv]
  generalize (w.env.rx.recv size).1 = answer
  rcases answer with (_ | ⟨_, _⟩) | _ | _ | _
  all_goals rfl

theorem waits_setSize (w : Endpoint S) (f : LenField) (size : SizeField) :
    (w.setSize f size).waits = w.waits := by
  cases f
  all_goals rfl

theorem waits_read_len_body {f : LenField} {x : List UInt8 × Endpoint S}
    {flow : ControlFlow (List UInt8 × Endpoint S) (Int × Endpoint S)} (h : read_len_body f x = ok flow) :
    flow.Holds (fun next => next.2.waits = x.2.waits) fun value => value.2.waits = x.2.waits := by
  obtain ⟨got, w⟩ := x
  have hrecv := w.waits_ngx_recv f.part (NGX_NSOC_LEN_FIELD_SIZE - got.length)
  generalize hcall : w.ngx_recv f.part (NGX_NSOC_LEN_FIELD_SIZE - got.length) = r at hrecv
  obtain ⟨n, bytes, v⟩ := r
  simp only [read_len_body, hcall] at h
  split_ifs at h with hpos hone hagain
  · split at h
    all_goals
      cases h
      first
      | exact (v.waits_setSize f _).trans hrecv
      | exact hrecv
  all_goals
    cases h
    exact (waits_setSize _ f _).trans hrecv

theorem waits_read_len {f : LenField} {fuel : Nat} {w : Endpoint S} {r : Int × Endpoint S}
    (h : w.read_len f fuel = ok r) : r.2.waits = w.waits := by
  have hloop : ∀ x, loop (read_len_body f) fuel x = ok r → r.2.waits = x.2.waits := by
    intro x hrun
    exact loop_keeps (fun y : List UInt8 × Endpoint S => y.2.waits) (fun y : Int × Endpoint S => y.2.waits)
      (fun _ _ => waits_read_len_body) hrun
  unfold read_len at h
  split at h
  · exact hloop _ h
  · exact (hloop _ h).trans (w.waits_setSize f .unset)

theorem waits_recv_frame (N : NoiseC S) (w : Endpoint S) (start len size : Nat) :
    (w.recv_frame N start len size).2.waits = w.waits := by
  unfold recv_frame
  dsimp only
  split_ifs
  all_goals rfl

theorem waits_recv_body {N : NoiseC S} {size : Nat} {w : Endpoint S}
    {flow : ControlFlow (Endpoint S) (Int × Endpoint S)} (h : recv_body N size w = ok flow) :
    flow.Holds (fun next => next.waits = w.waits) fun value => value.2.waits = w.waits := by
  unfold recv_body at h
  split at h
  · cases h
  · rename_i b hbuf
    have hrecv := w.waits_ngx_recv (.msg_data (w.nc.noise_msg.recv_size.getD 0)) (b.stop - b.pos)
    dsimp only at h
    split_ifs at h with hpos hfull hagain
    all_goals cases h
    · exact (waits_recv_frame N _ _ _ _).trans hrecv
    · exact hrecv
    · exact hrecv
    · exact hrecv

theorem waits_recv {N : NoiseC S} {fuel buf size : Nat} {w : Endpoint S} {r : Int × Endpoint S}
    (h : w.recv N fuel buf size = ok r) : r.2.waits = w.waits := by
  have hloop : ∀ v, loop (recv_body N size) fuel v = ok r → r.2.waits = v.waits := by
    intro v hrun
    exact loop_keeps waits (fun y : Int × Endpoint S => y.2.waits) (fun _ _ => waits_recv_body) hrun
  unfold recv at h
  by_cases hother : w.nc.connection ≠ w.c.id
  · rw [if_pos hother] at h
    cases h
    rfl
  by_cases hlast : w.nc.last = NGX_ERROR
  · rw [if_neg hother, if_pos hlast] at h
    cases h
    rfl
  rw [if_neg hother, if_neg hlast] at h
  split at h
  · exact hloop _ h
  · obtain ⟨⟨n, v⟩, hlen, hrest⟩ := bind_eq_ok_iff.mp h
    have hwaits : v.waits = w.waits := waits_read_len hlen
    by_cases hn : n = NGX_OK
    · rw [if_neg (not_not.mpr hn)] at hrest
      split at hrest
      · cases hrest
        exact hwaits
      · split_ifs at hrest
        · cases hrest
          exact hwaits
        · exact (hloop _ hrest).trans hwaits
        · cases hrest
          exact hwaits
    · rw [if_pos hn] at hrest
      cases hrest
      exact hwaits

end Endpoint

theorem Source.timed_recv {N : NoiseC S} {fuel addr size : Nat} {mem : Memory} {src : Source S}
    {got : Int × Memory × Source S} (h : src.recv N fuel mem addr size = ok got) (hsrc : src.read.Timed) :
    got.2.2.read.Timed := by
  cases src with
  | plain rx read =>
    cases h
    exact Event.timed_afterRecv hsrc _
  | noise w =>
    obtain ⟨r, hrecv, hrest⟩ := bind_eq_ok_iff.mp h
    cases hrest
    obtain ⟨hdelayed, htimer⟩ := Prod.ext_iff.mp (Endpoint.waits_recv hrecv)
    exact htimer.trans (hsrc.trans hdelayed.symm)

namespace Relay

/-- What the passes of a call for one direction keep, and what its end then sees. -/
structure Carries (r s : Relay S D) : Prop where
  timed : s.src.read.Timed
  connected : s.connected = r.connected
  dst_read : s.dst_read = r.dst_read
  write_timer : s.write_timer = r.write_timer

section

variable {conf : RelayConf} {P : Destination D} {N : NoiseC S} {fuel : Nat} {r s t : Relay S D}
  {got : Int × Memory × Source S}

theorem timed_delay (r : Relay S D) : r.delay.src.read.Timed := by
  simp only [delay, setSrcRead, Source.read_setRead]
  exact rfl

theorem timed_account (n : Nat) (h : r.src.read.Timed) : (r.account conf n).src.read.Timed := by
  have hdelayed : (if conf.limit_rate ≠ 0 ∧ 0 < n * 1000 / conf.limit_rate then r.delay else r).src.read.Timed := by
    split_ifs
    · exact r.timed_delay
    · exact h
  unfold account
  generalize (if conf.limit_rate ≠ 0 ∧ 0 < n * 1000 / conf.limit_rate then r.delay else r) = s at hdelayed ⊢
  dsimp only
  split_ifs
  · simp only [setSrcRead, Source.read_setRead]
    exact hdelayed
  · exact hdelayed
  · exact hdelayed

theorem account_eq (n : Nat) : ∃ responses src, r.account conf n = { r with responses, src } := by
  obtain ⟨responses, read, haccount, -⟩ := account_cases conf n r
  exact ⟨responses, r.src.setRead read, haccount⟩

theorem timed_behind_recv (h : got.2.2.read.Timed) : (r.behind_recv got).src.read.Timed := by
  unfold behind_recv
  dsimp only
  split_ifs
  · simp only [setSrcRead, Source.read_setRead]
    exact h
  · exact h

theorem Carries.refl (h : r.src.read.Timed) : Carries r r := ⟨h, rfl, rfl, rfl⟩

theorem Carries.trans (h : Carries r s) (h' : Carries s t) : Carries r t :=
  ⟨h'.timed, h'.connected.trans h.connected, h'.dst_read.trans h.dst_read, h'.write_timer.trans h.write_timer⟩

theorem Carries.filtered {rc : Int} (h : r.src.read.Timed) (hfiltered : Filtered conf P r (rc, s)) :
    Carries r s := by
  cases hfiltered
  all_goals exact ⟨h, rfl, rfl, rfl⟩

theorem Carries.rewind (h : Carries r s) : Carries r (s.update_chains P).rewind := by
  obtain ⟨b, hrewind, -⟩ := rewind_eq (s.update_chains P)
  rw [hrewind]
  exact ⟨h.timed, h.connected, h.dst_read, h.write_timer⟩

/-- The writing half of a pass does not touch the source. -/
theorem Carries.process_write {exit : Option ProcessExit} (h : r.src.read.Timed)
    (hwrite : r.process_write conf P = ok (exit, s)) : Carries r s := by
  cases write_half hwrite with
  | skipped => exact .refl h
  | ended hconnected hdo_write exit hfiltered => exact .filtered h hfiltered
  | written hconnected hdo_write hfiltered hrc => exact (Carries.filtered h hfiltered).rewind

theorem Carries.take_received (h : got.2.2.read.Timed) :
    (r.take_received conf got).Holds (Carries r) fun value => Carries r value.2 := by
  have hbehind : Carries r (r.behind_recv got) := by
    obtain ⟨read, heq⟩ := behind_recv_eq got r
    refine ⟨timed_behind_recv h, ?_, ?_, ?_⟩
    all_goals
      rw [heq]
      rfl
  have haccount : Carries r ((r.behind_recv got).account conf (taken got.1).toNat) := by
    obtain ⟨responses, src, heq⟩ := @account_eq _ _ conf (r.behind_recv got) (taken got.1).toNat
    refine hbehind.trans ⟨timed_account _ hbehind.timed, ?_, ?_, ?_⟩
    all_goals rw [heq]
  unfold Relay.take_received
  dsimp only
  split_ifs
  · exact ⟨h, rfl, rfl, rfl⟩
  · exact hbehind
  · exact ⟨haccount.timed, haccount.connected, haccount.dst_read, haccount.write_timer⟩
  · exact ⟨haccount.timed, haccount.connected, haccount.dst_read, haccount.write_timer⟩

/-- The reading half of a pass arms the timer of the source when it delays it. -/
theorem Carries.process_read {flow : ControlFlow (Relay S D) (Option ProcessExit × Relay S D)}
    (h : r.src.read.Timed) (hread : r.process_read conf N fuel = ok flow) :
    flow.Holds (Carries r) fun value => Carries r value.2 := by
  unfold Relay.process_read at hread
  split_ifs at hread with hreadable hlimit
  · cases hread
    exact ⟨r.timed_delay, rfl, rfl, rfl⟩
  · obtain ⟨got, hrecv, hrest⟩ := bind_eq_ok_iff.mp hread
    cases hrest
    exact Carries.take_received (Source.timed_recv hrecv h)
  · cases hread
    exact .refl h

theorem write_exit {exit : ProcessExit} (hwrite : r.process_write conf P = ok (some exit, s)) :
    exit ≠ .returned := by
  unfold Relay.process_write at hwrite
  by_cases hdo : r.do_write ∧ r.connected ∧ (r.out ≠ [] ∨ r.busy ≠ [] ∨ r.dst_buffered P)
  · rw [if_pos hdo] at hwrite
    obtain ⟨sent, -, hrest⟩ := bind_eq_ok_iff.mp hwrite
    split_ifs at hrest
    · cases hrest
      simp
    · cases hrest
      simp
    · cases hrest
  · rw [if_neg hdo] at hwrite
    cases hwrite

theorem read_exit {exit : ProcessExit} (hread : r.process_read conf N fuel = ok (.done (some exit, s))) :
    exit ≠ .returned := by
  unfold Relay.process_read at hread
  split_ifs at hread
  · cases hread
  · obtain ⟨got, -, hrest⟩ := bind_eq_ok_iff.mp hread
    unfold Relay.take_received at hrest
    dsimp only at hrest
    split_ifs at hrest
    · cases hrest
      simp
    · cases hrest
    · cases hrest
    · cases hrest
      simp
  · cases hread

/-- What a loop of passes leaves with: it does not return from inside. -/
structure Exits (r : Relay S D) (value : Option ProcessExit × Relay S D) : Prop where
  carries : Carries r value.2
  exit : value.1 ≠ some .returned

/-- A pass. -/
theorem Carries.process_body {flow : ControlFlow (Relay S D) (Option ProcessExit × Relay S D)}
    (h : Carries r s) (hbody : s.process_body conf P N fuel = ok flow) :
    flow.Holds (Carries r) (Exits r) := by
  unfold Relay.process_body at hbody
  obtain ⟨⟨exit, u⟩, hwrite, hrest⟩ := bind_eq_ok_iff.mp hbody
  have hwritten := h.trans (.process_write h.timed hwrite)
  cases exit with
  | some exit =>
    cases hrest
    exact ⟨hwritten, fun hexit => write_exit hwrite (Option.some.inj hexit)⟩
  | none =>
    have hread := Carries.process_read hwritten.timed hrest
    cases flow with
    | cont next => exact hwritten.trans hread
    | done value =>
      obtain ⟨exit, v⟩ := value
      refine ⟨hwritten.trans hread, ?_⟩
      rintro rfl
      exact read_exit hrest rfl

/-- What a call for one direction leaves: the timer of the source fits its delay, and where the call
returns with both connections there, the timer of the client is armed unless a read is delayed. -/
structure Settled (r s : Relay S D) (exit : ProcessExit) : Prop where
  timed : s.src.read.Timed
  connected : s.connected = r.connected
  dst_read : s.dst_read = r.dst_read
  write_timer : exit = .returned →
    s.write_timer = if r.connected then !s.src.read.delayed && !s.dst_read.delayed else r.write_timer

theorem Carries.leave (conf : RelayConf) (P : Destination D) (h : Carries r s) :
    Settled r (s.leave conf P).2 (s.leave conf P).1 := by
  obtain ⟨read, events, hread⟩ := handle_event_eq conf.src_shared s
  obtain ⟨write, events', hwrite⟩ := handle_event_eq conf.dst_shared { s with events }
  unfold Relay.leave
  dsimp only
  rw [hread, hwrite]
  by_cases hover : s.src.read.eof ∧ s.connected ∧ (s.dst_read.eof ∨ ¬ s.dst_buffered P)
  · rw [if_pos hover]
    exact ⟨h.timed, h.connected, h.dst_read, by rintro ⟨⟩⟩
  rw [if_neg hover]
  by_cases hread : read = true
  · rw [if_neg (not_not.mpr hread)]
    by_cases hconnected : s.connected = true
    · rw [if_neg (not_not.mpr hconnected)]
      by_cases hwrite : write = true
      · rw [if_neg (not_not.mpr hwrite)]
        refine ⟨h.timed, h.connected, h.dst_read, fun _ => ?_⟩
        rw [← h.connected, if_pos hconnected]
      · rw [if_pos hwrite]
        exact ⟨h.timed, h.connected, h.dst_read, by rintro ⟨⟩⟩
    · rw [if_pos hconnected]
      refine ⟨h.timed, h.connected, h.dst_read, fun _ => ?_⟩
      rw [← h.connected, if_neg hconnected]
      exact h.write_timer
  · rw [if_pos hread]
    exact ⟨h.timed, h.connected, h.dst_read, by rintro ⟨⟩⟩

/-- A call of `ngx_nsoc_proxy_process`. -/
theorem settled_process {stopping do_write : Bool} {elapsed : Int} {exit : ProcessExit}
    (h : r.src.read.Timed) (hprocess : r.process conf P N fuel stopping do_write elapsed = ok (exit, s)) :
    Settled r s exit := by
  unfold process at hprocess
  split_ifs at hprocess with hstopping
  · cases hprocess
    exact ⟨h, rfl, rfl, by rintro ⟨⟩⟩
  · obtain ⟨⟨exited, u⟩, hloop, hrest⟩ := bind_eq_ok_iff.mp hprocess
    have henter : Carries r (r.enter do_write elapsed) := ⟨h, rfl, rfl, rfl⟩
    obtain ⟨hcarries, hexit⟩ : Exits r (exited, u) :=
      loop_holds (Carries r) (Exits r) (fun _ _ hs hbody => hs.process_body hbody) henter hloop
    cases exited with
    | some exited =>
      cases hrest
      exact ⟨hcarries.timed, hcarries.connected, hcarries.dst_read, fun hreturned => by
        rw [hreturned] at hexit
        exact absurd rfl hexit⟩
    | none =>
      have hsettled := hcarries.leave conf P
      rw [Result.ok.inj hrest] at hsettled
      exact hsettled

end

end Relay

end ngx_nsoc
