import NoiseSocket.NoiseC.Pattern
import NoiseSocket.Relay.Both
import NoiseSocket.Relay.Given

open Exec Exec.Result

namespace ngx_nsoc

variable {S D E : Type}

namespace Relays

/-- The copies of what the directions share agree, and the timer of each read event is armed exactly while
the rate keeps it from being read. -/
structure Timed (x : Relays S D E) : Prop where
  connected : x.download.connected = true
  client_read : x.download.dst_read = x.client_read
  upstream_read : x.upload.dst_read = x.upstream_read
  write_timer : x.download.write_timer = x.write_timer
  client : x.client_read.Timed
  upstream : x.upstream_read.Timed

/-- With both connections there, the timer of the client is armed exactly while no read is delayed. -/
def Watched (x : Relays S D E) : Prop :=
  x.connected = true → x.write_timer = (!x.client_read.delayed && !x.upstream_read.delayed)

/-- The invariant of a session: of what a call leaves, and of where it returns. -/
structure Sound (y : ProcessExit × Relays S D E) : Prop where
  timed : y.2.Timed
  watched : y.1 = .returned → y.2.Watched

section

variable {conf : RelaysConf} {P : Destination D} {Q : Destination E} {N : NoiseC S} {fuel : Nat} {elapsed : Int}
  {stopping handled : Bool} {waker : Waker} {x x' : Relays S D E} {y : ProcessExit × Relays S D E}

theorem Started.timed (h : x.Started) : x.Timed :=
  ⟨h.download, h.client_read, h.upstream_read, h.write_timer, h.client_timed.1.trans h.client_timed.2.symm,
    h.upstream_timed.1.trans h.upstream_timed.2.symm⟩

theorem watched_of_unconnected (h : x.connected = false) : x.Watched :=
  fun hconnected => absurd (h.symm.trans hconnected) (by simp)

/-- A call for one direction settles the timers of both. -/
theorem Timed.process {from_upstream do_write : Bool} (h : x.Timed)
    (hcall : x.process conf P Q N fuel stopping from_upstream do_write elapsed = ok y) : Sound y := by
  unfold Relays.process at hcall
  cases from_upstream with
  | true =>
    obtain ⟨⟨exit, r⟩, hprocess, hrest⟩ := bind_eq_ok_iff.mp hcall
    cases hrest
    have hsettled := Relay.settled_process h.upstream hprocess
    have hread : r.dst_read = x.client_read := hsettled.dst_read.trans h.client_read
    refine ⟨⟨hsettled.connected.trans h.connected, hread, rfl, rfl, h.client, hsettled.timed⟩, ?_⟩
    intro hreturned _
    have htimer := hsettled.write_timer hreturned
    rw [if_pos h.connected, hread] at htimer
    exact htimer.trans (Bool.and_comm _ _)
  | false =>
    obtain ⟨⟨exit, r⟩, hprocess, hrest⟩ := bind_eq_ok_iff.mp hcall
    cases hrest
    have hsettled := Relay.settled_process h.client hprocess
    have hread : r.dst_read = x.upstream_read := hsettled.dst_read.trans h.upstream_read
    refine ⟨⟨h.connected, rfl, hread, rfl, hsettled.timed, h.upstream⟩, ?_⟩
    intro hreturned hconnected
    have htimer := hsettled.write_timer hreturned
    rw [if_pos (hsettled.connected.symm.trans hconnected), hread] at htimer
    exact htimer

theorem Timed.run (h : x.Timed) (hwatched : x.Watched)
    (hcall : x.run conf P Q N fuel stopping elapsed waker = ok y) : Sound y := by
  unfold Relays.run at hcall
  split_ifs at hcall with hnone
  · cases hcall
    exact ⟨h, fun _ => hwatched⟩
  · exact h.process hcall

theorem Timed.setClientRead {read : Event} (h : x.Timed) (hread : read.Timed) : (x.setClientRead read).Timed := by
  have hset : (x.setClientRead read).client_read = read := Source.read_setRead read x.upload.src
  refine ⟨h.connected, hset.symm, h.upstream_read, h.write_timer, ?_, h.upstream⟩
  rw [hset]
  exact hread

theorem Timed.setUpstreamRead {read : Event} (h : x.Timed) (hread : read.Timed) :
    (x.setUpstreamRead read).Timed := by
  have hset : (x.setUpstreamRead read).upstream_read = read := Source.read_setRead read x.download.src
  refine ⟨h.connected, h.client_read, hset.symm, h.write_timer, h.client, ?_⟩
  rw [hset]
  exact hread

theorem Timed.setWriteTimer (h : x.Timed) (armed : Bool) : (x.setWriteTimer armed).Timed :=
  ⟨h.connected, h.client_read, h.upstream_read, rfl, h.client, h.upstream⟩

/-- Where a read is not delayed any more, the timer of the client is armed again unless the other one is. -/
theorem Timed.arm (h : x.Timed)
    (hother : x.client_read.delayed = true ∨ x.upstream_read.delayed = true → x.write_timer = false) :
    Sound (.returned, x.arm) := by
  unfold Relays.arm
  by_cases hboth : x.connected ∧ ¬ x.client_read.delayed ∧ ¬ x.upstream_read.delayed
  · rw [if_pos hboth]
    refine ⟨h.setWriteTimer true, fun _ _ => ?_⟩
    simp only [Bool.not_eq_true] at hboth
    change true = (!x.client_read.delayed && !x.upstream_read.delayed)
    rw [hboth.2.1, hboth.2.2]
    rfl
  · rw [if_neg hboth]
    refine ⟨h, fun _ hconnected => ?_⟩
    have hdelayed : x.client_read.delayed = true ∨ x.upstream_read.delayed = true := by
      by_contra hnone
      rw [not_or] at hnone
      exact hboth ⟨hconnected, hnone⟩
    change x.write_timer = _
    rw [hother hdelayed]
    obtain hclient | hupstream := hdelayed
    · rw [hclient]
      rfl
    · rw [hupstream, Bool.not_true, Bool.and_false]

/-- A read event that is not delayed any more. -/
def resumed (ev : Event) : Event := { ev with timer_set := false, delayed := false }

theorem setRead_setClientRead (read read' : Event) (x : Relays S D E) :
    (x.setClientRead read).setClientRead read' = x.setClientRead read' := by
  simp only [setClientRead, Relay.setSrcRead, Source.setRead_setRead]

theorem setRead_setUpstreamRead (read read' : Event) (x : Relays S D E) :
    (x.setUpstreamRead read).setUpstreamRead read' = x.setUpstreamRead read' := by
  simp only [setUpstreamRead, Relay.setSrcRead, Source.setRead_setRead]

theorem client_read_setClientRead (read : Event) (x : Relays S D E) :
    (x.setClientRead read).client_read = read := Source.read_setRead read x.upload.src

theorem upstream_read_setUpstreamRead (read : Event) (x : Relays S D E) :
    (x.setUpstreamRead read).upstream_read = read := Source.read_setRead read x.download.src

/-- The handler of a read whose delay has run out: the read goes on, or the session waits for it. -/
theorem process_connection_resumed {ev : Event} (hev : x.event waker = some ev) (hdelayed : ev.delayed = true) :
    (x.expire waker).process_connection conf P Q N fuel stopping elapsed handled waker true =
      if ev.ready then (x.setEvent (resumed ev) waker).run conf P Q N fuel stopping elapsed waker
      else if ¬ handled then ok (.finalized NGX_NSOC_INTERNAL_SERVER_ERROR, x.setEvent (resumed ev) waker)
      else ok (.returned, (x.setEvent (resumed ev) waker).arm) := by
  cases waker with
  | client_read =>
    obtain rfl := Option.some.inj hev
    simp only [process_connection, expire, event, client_read_setClientRead, Option.filter_some, hdelayed,
      if_true, setEvent, setRead_setClientRead]
    exact rfl
  | upstream_read =>
    obtain rfl := Option.some.inj hev
    simp only [process_connection, expire, event, upstream_read_setUpstreamRead, Option.filter_some, hdelayed,
      if_true, setEvent, setRead_setUpstreamRead]
    exact rfl
  | client_write => cases hev
  | upstream_write => cases hev

/-- The handler of an event whose timer guards the whole session. -/
theorem process_connection_timedout (x : Relays S D E) (hev : x.event waker = none) :
    x.process_connection conf P Q N fuel stopping elapsed handled waker true =
      if conf.dgram then
        if conf.responses = NGX_MAX_INT32_VALUE then
          (x.setUpstreamRead { x.upstream_read with ready := false, eof := true }).process conf P Q N fuel
            stopping true false elapsed
        else if x.download.received = 0 then ok (.next_upstream, x)
        else ok (.finalized NGX_NSOC_OK, x)
      else ok (.finalized NGX_NSOC_OK, x) := by
  simp only [process_connection, hev]
  exact rfl

theorem process_connection_event :
    x.process_connection conf P Q N fuel stopping elapsed handled waker false =
      if x.delayed waker then
        ok (if handled then .returned else .finalized NGX_NSOC_INTERNAL_SERVER_ERROR, x)
      else x.run conf P Q N fuel stopping elapsed waker := rfl

/-- A read that is delayed no more leaves the timer of the client unarmed until it is armed again. -/
theorem Timed.resume {ev : Event} (h : x.Timed) (hwatched : x.Watched) (hev : x.event waker = some ev)
    (hdelayed : ev.delayed = true) : (x.setEvent (resumed ev) waker).Timed ∧
      (x.setEvent (resumed ev) waker).connected = x.connected ∧
      (x.connected = true → (x.setEvent (resumed ev) waker).write_timer = false) := by
  cases waker with
  | client_read =>
    obtain rfl := Option.some.inj hev
    refine ⟨h.setClientRead rfl, rfl, fun hconnected => ?_⟩
    rw [show (x.setEvent (resumed x.client_read) .client_read).write_timer = x.write_timer from rfl,
      hwatched hconnected, hdelayed]
    rfl
  | upstream_read =>
    obtain rfl := Option.some.inj hev
    refine ⟨h.setUpstreamRead rfl, rfl, fun hconnected => ?_⟩
    rw [show (x.setEvent (resumed x.upstream_read) .upstream_read).write_timer = x.write_timer from rfl,
      hwatched hconnected, hdelayed, Bool.not_true, Bool.and_false]
  | client_write => cases hev
  | upstream_write => cases hev

/-- The event whose timer has run out is a delayed read, or the writing of the client. -/
theorem Timed.delayed_of_armed {ev : Event} (h : x.Timed) (harmed : x.armed waker = true)
    (hev : x.event waker = some ev) : ev.delayed = true := by
  cases waker with
  | client_read =>
    obtain rfl := Option.some.inj hev
    exact h.client.symm.trans harmed
  | upstream_read =>
    obtain rfl := Option.some.inj hev
    exact h.upstream.symm.trans (Bool.and_eq_true_iff.mp harmed).2
  | client_write => cases hev
  | upstream_write => cases hev

/-- Where both connections are there, an armed write timer has no delayed read beside it. -/
theorem Timed.expired (h : x.Timed) (hwatched : x.Watched) (harmed : x.armed waker = true)
    (hcall : (x.expire waker).process_connection conf P Q N fuel stopping elapsed handled waker true = ok y) :
    Sound y := by
  cases hev : x.event waker with
  | some ev =>
    have hdelayed := h.delayed_of_armed harmed hev
    obtain ⟨htimed, hconnected, hunarmed⟩ := h.resume hwatched hev hdelayed
    rw [process_connection_resumed hev hdelayed] at hcall
    split_ifs at hcall with hready hhandled
    · unfold Relays.run at hcall
      split_ifs at hcall with hnone
      · cases hcall
        exact ⟨htimed, fun _ => watched_of_unconnected (Bool.not_eq_true _ ▸ hnone.2)⟩
      · exact htimed.process hcall
    · cases hcall
      by_cases hconn : x.connected = true
      · exact htimed.arm fun _ => hunarmed hconn
      · have hnone : (x.setEvent (resumed ev) waker).connected = false :=
          hconnected.trans (Bool.not_eq_true _ ▸ hconn)
        have harm : (x.setEvent (resumed ev) waker).arm = x.setEvent (resumed ev) waker := by
          rw [Relays.arm, hnone]
          exact if_neg (by simp)
        rw [harm]
        exact ⟨htimed, fun _ => watched_of_unconnected hnone⟩
    · cases hcall
      exact ⟨htimed, by rintro ⟨⟩⟩
  | none =>
    obtain rfl : waker = .client_write := by
      cases waker with
      | client_write => rfl
      | upstream_write => cases harmed
      | client_read => cases hev
      | upstream_read => cases hev
    have hset : (x.setWriteTimer false).Timed := h.setWriteTimer false
    rw [process_connection_timedout (x.expire .client_write) rfl] at hcall
    split_ifs at hcall
    · have hread : ({ x.upstream_read with ready := false, eof := true } : Event).Timed := h.upstream
      exact (hset.setUpstreamRead hread).process hcall
    · cases hcall
      exact ⟨hset, by rintro ⟨⟩⟩
    · cases hcall
      exact ⟨hset, by rintro ⟨⟩⟩
    · cases hcall
      exact ⟨hset, by rintro ⟨⟩⟩

theorem Timed.event (h : x.Timed) (hwatched : x.Watched)
    (hcall : x.process_connection conf P Q N fuel stopping elapsed handled waker false = ok y) : Sound y := by
  rw [process_connection_event] at hcall
  split_ifs at hcall with hdelayed
  · cases hcall
    exact ⟨h, fun _ => hwatched⟩
  · cases hcall
    exact ⟨h, by rintro ⟨⟩⟩
  · exact h.run hwatched hcall

/-- A new connection to the upstream, which nothing delays yet. -/
theorem Timed.connect {dst : D} {src : Source S} (h : x.Timed)
    (hread : src.read.timer_set = false ∧ src.read.delayed = false) : (x.connect conf dst src).Timed := by
  obtain ⟨upload, hupload, hsrc, htimer, hdst⟩ : ∃ upload : Relay S D,
      x.upload.connect conf.upload dst src.read = upload ∧ upload.src = x.upload.src ∧
        upload.write_timer = x.upload.write_timer ∧ upload.dst_read.Timed := by
    refine ⟨_, rfl, ?_⟩
    have hquiet : src.read.Timed := hread.1.trans hread.2.symm
    unfold Relay.connect
    dsimp only
    split
    · refine ⟨rfl, rfl, ?_⟩
      split_ifs
      · exact hquiet
      · exact hquiet
    · split_ifs
      all_goals exact ⟨rfl, rfl, hquiet⟩
  have hset : (x.connect conf dst src).upstream_read = upload.dst_read := by
    rw [Relays.upstream_read, Relays.connect, hupload]
    exact Source.read_setRead upload.dst_read src
  have hclient : (x.connect conf dst src).client_read = x.client_read := by
    rw [Relays.client_read, Relays.connect, hupload]
    exact congrArg Source.read hsrc
  refine ⟨h.connected, ?_, ?_, ?_, ?_, ?_⟩
  · exact h.client_read.trans hclient.symm
  · rw [hset, Relays.connect, hupload]
  · rw [Relays.write_timer, Relays.connect, hupload, htimer]
    exact h.write_timer
  · rw [hclient]
    exact h.client
  · rw [hset]
    exact hdst

theorem Elsewhere.timed (h : x.Elsewhere P Q x') (hx : x.Timed) : x'.Timed := by
  refine ⟨?_, h.client_read, h.upstream_read, h.download_timer.trans h.write_timer.symm, ?_, ?_⟩
  · rw [h.download.others]
    exact hx.connected
  · exact h.client_timer.trans (hx.client.trans h.client_delayed.symm)
  · exact h.upstream_timer.trans (hx.upstream.trans h.upstream_delayed.symm)

theorem Elsewhere.watched (h : x.Elsewhere P Q x') (hx : x.Watched) : x'.Watched := by
  intro hconnected
  have hsame : x'.connected = x.connected := by
    rw [Relays.connected, h.upload.others]
    rfl
  rw [h.write_timer, h.client_delayed, h.upstream_delayed]
  exact hx (hsame.symm.trans hconnected)

/-- One step keeps the invariant. -/
theorem Sound.step {z : ProcessExit × Relays S D E} (h : Sound y) (hstep : Step conf P Q N fuel elapsed y z) :
    Sound z := by
  cases hstep with
  | event stopping handled elapsed waker hcall => exact h.timed.event (h.watched rfl) hcall
  | expired stopping handled elapsed waker harmed hcall => exact h.timed.expired (h.watched rfl) harmed hcall
  | connect dst src stopping elapsed hconnected hdst hsrc hread hcall => exact (h.timed.connect hread).process hcall
  | next_upstream elapsed x =>
    have htimed := h.timed
    exact ⟨⟨htimed.connected, htimed.client_read, htimed.upstream_read, htimed.write_timer, htimed.client,
      htimed.upstream⟩, fun _ => watched_of_unconnected rfl⟩
  | give_up elapsed x rc => exact ⟨h.timed, by rintro ⟨⟩⟩
  | elsewhere elapsed helsewhere => exact ⟨helsewhere.timed h.timed, fun _ => helsewhere.watched (h.watched rfl)⟩

/-- The invariant holds of every state of a session. -/
theorem Reachable.sound {clock : Clock} (h : Reachable conf P Q N fuel x clock y) : Sound y := by
  induction h with
  | started hx => exact ⟨hx.timed, fun _ => watched_of_unconnected hx.connected⟩
  | step hrun hstep ih => exact ih.step hstep

/-- Nothing comes in from either peer. -/
def Silent (x : Relays S D E) : Prop := x.client_read.ready = false ∧ x.upstream_read.ready = false

/-- The number of delayed reads. -/
def delays (x : Relays S D E) : Nat := x.client_read.delayed.toNat + x.upstream_read.delayed.toNat

/-- Nothing happens but that armed timers run out, `n` of them one after the other. -/
inductive Expiries (conf : RelaysConf) (P : Destination D) (Q : Destination E) (N : NoiseC S) (fuel : Nat)
    (x : Relays S D E) : Nat → ProcessExit × Relays S D E → Prop where
  | nil : Expiries conf P Q N fuel x 0 (.returned, x)
  | cons {n : Nat} {y : Relays S D E} {z : ProcessExit × Relays S D E} (stopping handled : Bool)
      (elapsed : Int) (waker : Waker) (hrun : Expiries conf P Q N fuel x n (.returned, y))
      (harmed : y.armed waker = true)
      (hcall : (y.expire waker).process_connection conf P Q N fuel stopping elapsed handled waker true =
        ok z) : Expiries conf P Q N fuel x (n + 1) z

/-- With a delay less a session stays silent. -/
theorem Silent.resume {ev : Event} (h : x.Silent) (hev : x.event waker = some ev) (hdelayed : ev.delayed = true) :
    ev.ready = false ∧ (x.setEvent (resumed ev) waker).Silent ∧
      (x.setEvent (resumed ev) waker).delays + 1 = x.delays := by
  cases waker with
  | client_read =>
    obtain rfl := Option.some.inj hev
    have hread := client_read_setClientRead (resumed x.client_read) x
    have hother : (x.setClientRead (resumed x.client_read)).upstream_read = x.upstream_read := rfl
    refine ⟨h.1, ⟨?_, h.2⟩, ?_⟩
    · rw [setEvent, hread]
      exact h.1
    · rw [setEvent, delays, delays, hread, hother, hdelayed]
      simp only [resumed, Bool.toNat_false, Bool.toNat_true]
      omega
  | upstream_read =>
    obtain rfl := Option.some.inj hev
    have hread := upstream_read_setUpstreamRead (resumed x.upstream_read) x
    have hother : (x.setUpstreamRead (resumed x.upstream_read)).client_read = x.client_read := rfl
    refine ⟨h.2, ⟨h.1, ?_⟩, ?_⟩
    · rw [setEvent, hread]
      exact h.2
    · rw [setEvent, delays, delays, hread, hother, hdelayed]
      exact rfl
  | client_write => cases hev
  | upstream_write => cases hev

theorem arm_reads (x : Relays S D E) : x.arm.client_read = x.client_read ∧
    x.arm.upstream_read = x.upstream_read ∧ x.arm.connected = x.connected := by
  unfold arm
  split_ifs
  all_goals exact ⟨rfl, rfl, rfl⟩

/-- A timer that runs out in silence ends the delay of a read, or the session. -/
theorem Timed.expired_silent (h : x.Timed) (hstream : conf.dgram = false) (hsilent : x.Silent)
    (harmed : x.armed waker = true) : ∃ y,
      (x.expire waker).process_connection conf P Q N fuel stopping elapsed handled waker true = ok y ∧
      (y.1 = .returned → y.2.Silent ∧ y.2.connected = x.connected ∧ y.2.delays + 1 = x.delays) := by
  cases hev : x.event waker with
  | some ev =>
    have hdelayed := h.delayed_of_armed harmed hev
    obtain ⟨hready, hstill, hcount⟩ := hsilent.resume hev hdelayed
    have hconnected : (x.setEvent (resumed ev) waker).connected = x.connected := by
      cases waker
      all_goals rfl
    rw [process_connection_resumed hev hdelayed, hready]
    cases handled with
    | false => exact ⟨_, rfl, by rintro ⟨⟩⟩
    | true =>
      refine ⟨_, rfl, fun _ => ?_⟩
      obtain ⟨hclient, hupstream, hsame⟩ := (x.setEvent (resumed ev) waker).arm_reads
      refine ⟨?_, hsame.trans hconnected, ?_⟩
      · rw [Silent, hclient, hupstream]
        exact hstill
      · rw [delays, hclient, hupstream]
        exact hcount
  | none =>
    obtain rfl : waker = .client_write := by
      cases waker with
      | client_write => rfl
      | upstream_write => cases harmed
      | client_read => cases hev
      | upstream_read => cases hev
    rw [process_connection_timedout (x.expire .client_write) rfl, hstream]
    exact ⟨_, rfl, by rintro ⟨⟩⟩

/-- What timers that run out in silence leave of a session that goes on. -/
theorem Expiries.delays {n : Nat} {z : ProcessExit × Relays S D E} (h : Expiries conf P Q N fuel x n z)
    (hsound : Sound (.returned, x)) (hconnected : x.connected = true) (hstream : conf.dgram = false)
    (hsilent : x.Silent) : Sound z ∧ (z.1 = .returned →
      z.2.Silent ∧ z.2.connected = true ∧ z.2.delays + n = x.delays) := by
  induction h with
  | nil => exact ⟨hsound, fun _ => ⟨hsilent, hconnected, rfl⟩⟩
  | @cons n y z stopping handled elapsed waker hrun harmed hcall ih =>
    obtain ⟨hy, hrest⟩ := ih
    obtain ⟨hstill, hgoes, hcount⟩ := hrest rfl
    refine ⟨hy.timed.expired (hy.watched rfl) harmed hcall, fun hreturned => ?_⟩
    obtain ⟨z', hcall', hnext⟩ := hy.timed.expired_silent (P := P) (Q := Q) (N := N) hstream hstill harmed
    obtain rfl := Result.ok.inj (hcall.symm.trans hcall')
    obtain ⟨hquiet, hsame, hless⟩ := hnext hreturned
    dsimp only at hsame hless hgoes hcount
    exact ⟨hquiet, hsame.trans hgoes, by omega⟩

end

end Relays

end ngx_nsoc
