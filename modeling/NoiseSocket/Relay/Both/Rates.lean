import NoiseSocket.Relay.Both.Timers
import NoiseSocket.Relay.Rates

open Exec Exec.Result

namespace ngx_nsoc

variable {S D E : Type}

namespace Relays

/-- Neither direction is ahead of its rate in the time that the clock has shown. -/
structure Paced (conf : RelaysConf) (clock : Clock) (x : Relays S D E) : Prop where
  upload : x.upload.Within conf.upload clock
  download : x.download.Within conf.download clock

section

variable {conf : RelaysConf} {P : Destination D} {Q : Destination E} {N : NoiseC S} {fuel : Nat} {elapsed : Int}
  {clock : Clock} {stopping handled timedout : Bool} {waker : Waker} {x x' : Relays S D E}
  {y : ProcessExit × Relays S D E}

theorem Paced.mono {later : Clock} (h : x.Paced conf clock) (hle : clock.Le later) : x.Paced conf later :=
  ⟨h.upload.mono hle, h.download.mono hle⟩

theorem Paced.congr (h : x.Paced conf clock) (hupload : x'.upload.received = x.upload.received)
    (hdownload : x'.download.received = x.download.received) : x'.Paced conf clock := by
  constructor
  · intro hrate hholds
    rw [hupload]
    exact h.upload hrate hholds
  · intro hrate hholds
    rw [hdownload]
    exact h.download hrate hholds

theorem Paced.process {from_upstream do_write : Bool} (h : x.Paced conf clock) (hshown : clock.Shown elapsed)
    (hcall : x.process conf P Q N fuel stopping from_upstream do_write elapsed = ok y) : y.2.Paced conf clock := by
  unfold Relays.process at hcall
  cases from_upstream with
  | true =>
    obtain ⟨r, hprocess, hrest⟩ := bind_eq_ok_iff.mp hcall
    cases hrest
    exact ⟨h.upload, h.download.process hshown hprocess⟩
  | false =>
    obtain ⟨r, hprocess, hrest⟩ := bind_eq_ok_iff.mp hcall
    cases hrest
    exact ⟨h.upload.process hshown hprocess, h.download⟩

theorem Paced.run (h : x.Paced conf clock) (hshown : clock.Shown elapsed)
    (hcall : x.run conf P Q N fuel stopping elapsed waker = ok y) : y.2.Paced conf clock := by
  unfold Relays.run at hcall
  split_ifs at hcall
  · cases hcall
    exact h
  · exact h.process hshown hcall

theorem Paced.setEvent (h : x.Paced conf clock) (read : Event) : (x.setEvent read waker).Paced conf clock := by
  apply h.congr
  all_goals
    cases waker
    all_goals rfl

theorem Paced.expire (h : x.Paced conf clock) : (x.expire waker).Paced conf clock := by
  apply h.congr
  all_goals
    cases waker
    all_goals rfl

theorem Paced.arm (h : x.Paced conf clock) : x.arm.Paced conf clock := by
  unfold Relays.arm
  split_ifs
  · exact h.congr rfl rfl
  · exact h

theorem Paced.process_connection (h : x.Paced conf clock) (hshown : clock.Shown elapsed)
    (hcall : x.process_connection conf P Q N fuel stopping elapsed handled waker timedout = ok y) :
    y.2.Paced conf clock := by
  unfold Relays.process_connection at hcall
  cases timedout with
  | true =>
    rw [if_pos rfl] at hcall
    split at hcall
    · split_ifs at hcall
      · exact (h.setEvent _).run hshown hcall
      · cases hcall
        exact (h.setEvent _).arm
      · cases hcall
        exact h.setEvent _
    · split_ifs at hcall
      · have hset : (x.setUpstreamRead { x.upstream_read with ready := false, eof := true }).Paced conf clock :=
          h.congr rfl rfl
        exact hset.process hshown hcall
      · cases hcall
        exact h
      · cases hcall
        exact h
      · cases hcall
        exact h
  | false =>
    rw [if_neg (by simp)] at hcall
    split_ifs at hcall
    · cases hcall
      exact h
    · cases hcall
      exact h
    · exact h.run hshown hcall

theorem Paced.connect (h : x.Paced conf clock) (dst : D) (src : Source S) :
    (x.connect conf dst src).Paced conf clock := by
  refine h.congr ?_ rfl
  obtain ⟨read, hconnect, -⟩ | ⟨buffer, read, record, -, -, hconnect, -⟩ :=
    Relay.connect_cases conf.upload dst src.read x.upload
  · rw [Relays.connect, hconnect]
  · rw [Relays.connect, hconnect]

/-- One step of a session, at a time that the clock shows. -/
theorem Paced.step {z : ProcessExit × Relays S D E} (h : y.2.Paced conf clock) (hshown : clock.Shown elapsed)
    (hstep : Step conf P Q N fuel elapsed y z) : z.2.Paced conf clock := by
  cases hstep with
  | event stopping handled elapsed waker hcall => exact h.process_connection hshown hcall
  | expired stopping handled elapsed waker harmed hcall => exact (Paced.expire h).process_connection hshown hcall
  | connect dst src stopping elapsed hconnected hdst hsrc hread hcall =>
    exact (Paced.connect h dst src).process hshown hcall
  | next_upstream elapsed x => exact ⟨h.upload, h.download⟩
  | give_up elapsed x rc => exact h
  | elsewhere elapsed helsewhere =>
    apply Paced.congr h
    · rw [helsewhere.upload.others]
    · rw [helsewhere.download.others]

end

end Relays

end ngx_nsoc
