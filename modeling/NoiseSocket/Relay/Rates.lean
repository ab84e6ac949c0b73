import NoiseSocket.Relay.Halves

open Exec Exec.Result

namespace ngx_nsoc

variable {S D : Type}

theorem error_le (size : Nat) : NGX_ERROR ≤ size := by
  simp only [NGX_ERROR]
  omega

theorem again_le (size : Nat) : NGX_AGAIN ≤ size := by
  simp only [NGX_AGAIN]
  omega

theorem answerCode_le (rx : Net.Incoming) (size : Nat) : answerCode (rx.recv size).1 ≤ size := by
  cases hanswer : (rx.recv size).1 with
  | data got =>
    have hle := Net.length_le_of_recv_data (Prod.ext hanswer rfl)
    exact Int.ofNat_le.mpr hle
  | eof => exact Int.natCast_nonneg size
  | again => exact again_le size
  | error => exact error_le size

namespace Endpoint

variable {N : NoiseC S} {fuel buf size : Nat} {w : Endpoint S} {r : Int × Endpoint S}

theorem read_len_le {f : LenField} (h : w.read_len f fuel = ok r) : r.1 ≤ 0 := by
  have hbody : ∀ (x : List UInt8 × Endpoint S) flow, read_len_body f x = ok flow →
      flow.Holds (fun _ => True) fun value : Int × Endpoint S => value.1 ≤ 0 := by
    rintro ⟨got, v⟩ flow hflow
    simp only [read_len_body] at hflow
    split_ifs at hflow with hpos hone hagain
    · split at hflow
      all_goals
        cases hflow
        first
        | exact Int.le_refl 0
        | trivial
    · cases hflow
      exact again_le 0
    · cases hflow
      exact Int.not_lt.mp hpos
    · cases hflow
      exact Int.not_lt.mp hpos
  have hloop : ∀ x, loop (read_len_body f) fuel x = ok r → r.1 ≤ 0 := by
    intro x hrun
    exact loop_holds (fun _ => True) (fun value : Int × Endpoint S => value.1 ≤ 0)
      (fun y flow _ => hbody y flow) trivial hrun
  unfold read_len at h
  split at h
  · exact hloop _ h
  · exact hloop _ h

theorem recv_frame_le (N : NoiseC S) (w : Endpoint S) (start len size : Nat) :
    (w.recv_frame N start len size).1 ≤ size := by
  unfold recv_frame
  dsimp only
  split_ifs with hfailed hlong
  · exact error_le size
  · exact error_le size
  · exact Int.ofNat_le.mpr (Nat.not_lt.mp hlong)

/-- `ngx_nsoc_recv` never returns more than it was asked for. -/
theorem recv_le (h : w.recv N fuel buf size = ok r) : r.1 ≤ size := by
  have hsize := Int.natCast_nonneg size
  have hbody : ∀ (v : Endpoint S) flow, recv_body N size v = ok flow →
      flow.Holds (fun _ => True) fun value : Int × Endpoint S => value.1 ≤ size := by
    intro v flow hflow
    unfold recv_body at hflow
    split at hflow
    · cases hflow
    · dsimp only at hflow
      split_ifs at hflow with hpos hfull hagain
      all_goals cases hflow
      · exact recv_frame_le N _ _ _ size
      · trivial
      · exact Int.le_trans (Int.not_lt.mp hpos) hsize
      · exact Int.le_trans (Int.not_lt.mp hpos) hsize
  have hloop : ∀ v, loop (recv_body N size) fuel v = ok r → r.1 ≤ size := by
    intro v hrun
    exact loop_holds (fun _ => True) (fun value : Int × Endpoint S => value.1 ≤ size)
      (fun y flow _ => hbody y flow) trivial hrun
  unfold recv at h
  by_cases hother : w.nc.connection ≠ w.c.id
  · rw [if_pos hother] at h
    cases h
    exact error_le size
  by_cases hlast : w.nc.last = NGX_ERROR
  · rw [if_neg hother, if_pos hlast] at h
    cases h
    exact error_le size
  rw [if_neg hother, if_neg hlast] at h
  split at h
  · exact hloop _ h
  · obtain ⟨⟨n, v⟩, hlen, hrest⟩ := bind_eq_ok_iff.mp h
    by_cases hn : n = NGX_OK
    · rw [if_neg (not_not.mpr hn)] at hrest
      split at hrest
      · cases hrest
        exact again_le size
      · split_ifs at hrest
        · cases hrest
          exact error_le size
        · exact hloop _ hrest
        · cases hrest
          exact error_le size
    · rw [if_pos hn] at hrest
      cases hrest
      exact Int.le_trans (read_len_le hlen) hsize

end Endpoint

theorem Source.recv_le {N : NoiseC S} {fuel addr size : Nat} {mem : Memory} {src : Source S}
    {got : Int × Memory × Source S} (h : src.recv N fuel mem addr size = ok got) : got.1 ≤ size := by
  cases src with
  | plain rx read =>
    cases h
    exact answerCode_le rx size
  | noise w =>
    obtain ⟨r, hrecv, hrest⟩ := bind_eq_ok_iff.mp h
    cases hrest
    exact Endpoint.recv_le hrecv

/-- The times that the clock has shown so far, in seconds since the start of the session: it may have
been set back before that. -/
structure Clock where
  earliest : Int
  latest : Int
  earliest_le : earliest ≤ 0
  le_latest : 0 ≤ latest

namespace Clock

/-- At the start of the session. -/
def start : Clock := ⟨0, 0, Int.le_refl 0, Int.le_refl 0⟩

/-- The clock shows one more time. -/
def shows (clock : Clock) (elapsed : Int) : Clock where
  earliest := min clock.earliest elapsed
  latest := max clock.latest elapsed
  earliest_le := (min_le_left _ _).trans clock.earliest_le
  le_latest := clock.le_latest.trans (le_max_left _ _)

/-- What comes in at a rate in the time that the clock has shown is a number that an `off_t` can hold. -/
def Holds (clock : Clock) (limit_rate : Nat) : Prop :=
  limit_rate * (clock.latest - clock.earliest + 1) < 2 ^ 63

/-- A clock that has shown more times. -/
structure Le (clock later : Clock) : Prop where
  earliest : later.earliest ≤ clock.earliest
  latest : clock.latest ≤ later.latest

/-- A time within those that the clock has shown. -/
structure Shown (clock : Clock) (elapsed : Int) : Prop where
  earliest : clock.earliest ≤ elapsed
  latest : elapsed ≤ clock.latest

theorem Le.holds {clock later : Clock} {limit_rate : Nat} (h : clock.Le later) (hlater : later.Holds limit_rate) :
    clock.Holds limit_rate := by
  have hspan : clock.latest - clock.earliest + 1 ≤ later.latest - later.earliest + 1 := by
    have hearliest := h.earliest
    have hlatest := h.latest
    omega
  exact Int.lt_of_le_of_lt (Int.mul_le_mul_of_nonneg_left hspan (Int.natCast_nonneg _)) hlater

end Clock

namespace Relay

/-- No more was received than the rate allows in the time that the clock has shown, if an `off_t` can
hold that. -/
def Within (conf : RelayConf) (clock : Clock) (r : Relay S D) : Prop :=
  conf.limit_rate ≠ 0 → clock.Holds conf.limit_rate → r.received ≤ conf.limit_rate * (clock.latest + 1)

/-- What the passes of a call keep. -/
structure Limited (conf : RelayConf) (clock : Clock) (r : Relay S D) : Prop where
  shown : clock.Shown r.elapsed
  within : r.Within conf clock

theorem Within.mono {conf : RelayConf} {clock later : Clock} {r : Relay S D} (h : r.Within conf clock)
    (hle : clock.Le later) : r.Within conf later := by
  intro hrate hholds
  refine (h hrate (hle.holds hholds)).trans ?_
  exact Int.mul_le_mul_of_nonneg_left (Int.add_le_add_right hle.latest 1) (Int.natCast_nonneg _)

section

variable {conf : RelayConf} {P : Destination D} {N : NoiseC S} {fuel : Nat} {clock : Clock} {r s : Relay S D}

theorem Limited.process_write {exit : Option ProcessExit} (h : Limited conf clock r)
    (hwrite : r.process_write conf P = ok (exit, s)) : Limited conf clock s := by
  cases write_half hwrite with
  | skipped => exact h
  | ended hconnected hdo_write exit hfiltered =>
    cases hfiltered
    all_goals exact ⟨h.shown, h.within⟩
  | @written rc t hconnected hdo_write hfiltered hrc =>
    obtain ⟨b, hrewind, -⟩ := rewind_eq (t.update_chains P)
    rw [hrewind]
    cases hfiltered
    all_goals exact ⟨h.shown, h.within⟩

/-- The size of a read is within the limit. -/
theorem read_size_le (hrate : conf.limit_rate ≠ 0) (hlimit : 0 < r.limit conf) :
    (r.read_size conf : Int) ≤ r.limit conf := by
  unfold read_size
  split_ifs with hsmall
  · omega
  · have hroom : ¬ r.limit conf < r.room := fun hless => hsmall ⟨hrate, hless⟩
    omega

/-- The limit is what is left of the rate: no product or difference leaves the range of an `off_t`. -/
theorem Limited.limit_eq (h : Limited conf clock r) (hrate : conf.limit_rate ≠ 0)
    (hholds : clock.Holds conf.limit_rate) :
    r.limit conf = conf.limit_rate * (r.elapsed + 1) - r.received ∧
      (conf.limit_rate : Int) * (r.elapsed + 1) ≤ conf.limit_rate * (clock.latest + 1) := by
  have hwithin := h.within hrate hholds
  have hearliest := h.shown.earliest
  have hlatest := h.shown.latest
  have hback := clock.earliest_le
  have hrange : (conf.limit_rate : Int) * (clock.latest - clock.earliest + 1) < 2 ^ 63 := hholds
  have hstep : ∀ {a b : Int}, a ≤ b → (conf.limit_rate : Int) * a ≤ conf.limit_rate * b :=
    fun hle => Int.mul_le_mul_of_nonneg_left hle (Int.natCast_nonneg _)
  have hhigh := hstep (show r.elapsed + 1 ≤ clock.latest + 1 by omega)
  have hspan := hstep (show clock.latest + 1 ≤ clock.latest - clock.earliest + 1 by omega)
  have hlow := hstep (show clock.latest + 1 - (clock.latest - clock.earliest + 1) ≤ r.elapsed + 1 by omega)
  rw [mul_sub] at hlow
  refine ⟨?_, hhigh⟩
  apply Signed.int64_eq
  · omega
  · omega

/-- A read takes no more than the limit at the time of the call leaves. -/
theorem Limited.process_read {flow : ControlFlow (Relay S D) (Option ProcessExit × Relay S D)}
    (h : Limited conf clock r) (hread : r.process_read conf N fuel = ok flow) :
    flow.Holds (Limited conf clock) fun value => Limited conf clock value.2 := by
  have hopen : r.readable → ¬ flow = .done (none, r.delay) → conf.limit_rate ≠ 0 → 0 < r.limit conf := by
    intro hreadable hgoes hrate
    by_contra hlimit
    rw [Relay.process_read, if_neg (not_not.mpr hreadable), if_pos ⟨hrate, by omega⟩] at hread
    exact hgoes (Result.ok.inj hread).symm
  cases read_half hread with
  | idle => exact h
  | delayed => exact ⟨h.shown, h.within⟩
  | left hreadable hrecv exit read responses allocs => exact ⟨h.shown, h.within⟩
  | @link got hreadable hrecv hn read responses allocs =>
    refine ⟨h.shown, fun hrate hholds => ?_⟩
    have hlimit := hopen hreadable (by simp) hrate
    have hsize : taken got.1 ≤ r.read_size conf := by
      have hle := Source.recv_le hrecv
      unfold taken
      split_ifs
      · exact Int.natCast_nonneg _
      · exact hle
    have hfits := read_size_le hrate hlimit
    have hle := (h.limit_eq hrate hholds).2
    rw [(h.limit_eq hrate hholds).1] at hfits
    show ((r.received + (taken got.1).toNat : Nat) : Int) ≤ conf.limit_rate * (clock.latest + 1)
    omega

theorem Limited.process_body {flow : ControlFlow (Relay S D) (Option ProcessExit × Relay S D)}
    (h : Limited conf clock r) (hbody : r.process_body conf P N fuel = ok flow) :
    flow.Holds (Limited conf clock) fun value => Limited conf clock value.2 := by
  unfold Relay.process_body at hbody
  obtain ⟨⟨exit, u⟩, hwrite, hrest⟩ := bind_eq_ok_iff.mp hbody
  have hwritten := h.process_write hwrite
  cases exit with
  | some exit =>
    cases hrest
    exact hwritten
  | none => exact hwritten.process_read hrest

/-- A call of `ngx_nsoc_proxy_process` stays within the rate. -/
theorem Within.process {stopping do_write : Bool} {elapsed : Int} {exit : ProcessExit}
    (h : r.Within conf clock) (hshown : clock.Shown elapsed)
    (hprocess : r.process conf P N fuel stopping do_write elapsed = ok (exit, s)) : s.Within conf clock := by
  unfold Relay.process at hprocess
  split_ifs at hprocess with hstopping
  · cases hprocess
    exact h
  · obtain ⟨⟨exited, u⟩, hloop, hrest⟩ := bind_eq_ok_iff.mp hprocess
    have henter : Limited conf clock (r.enter do_write elapsed) := ⟨hshown, h⟩
    have hlimited : Limited conf clock u :=
      loop_holds (Limited conf clock) (fun value => Limited conf clock value.2)
        (fun _ _ hs hbody => hs.process_body hbody) henter hloop
    cases exited with
    | some exited =>
      cases hrest
      exact hlimited.within
    | none =>
      obtain ⟨events, write_timer, hleave⟩ := leave_eq conf P u
      have hs : s = (u.leave conf P).2 := (congrArg Prod.snd (Result.ok.inj hrest)).symm
      rw [hs, hleave]
      exact hlimited.within

end

end Relay

end ngx_nsoc
