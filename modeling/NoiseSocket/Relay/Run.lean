import NoiseSocket.Relay

open Exec Exec.Result

namespace ngx_nsoc

variable {S D : Type}

/-- Where the program stands: outside `ngx_nsoc_proxy_process`, in front of the half of a pass that
writes or the half that reads, or behind the end of the session. -/
inductive Stage where
  | idle
  | writing
  | reading
  | ended
deriving DecidableEq, Repr

def ProcessExit.stage : ProcessExit → Stage
  | .returned => .idle
  | _ => .ended

namespace Relay

/-- What the rest of the program may do between two calls of `ngx_nsoc_proxy_process`. -/
structure Elsewhere (P : Destination D) (r r' : Relay S D) : Prop where
  src : r.src.Elsewhere r'.src
  dst : P.elsewhere r.dst r'.dst
  others : r' = { r with
    src := r'.src, dst := r'.dst, dst_read := r'.dst_read, other_received := r'.other_received
    write_timer := r'.write_timer, events := r'.events, allocs := r'.allocs }

/-- The bytes that were read in the preread phase. -/
def preread_bytes (conf : RelayConf) (r : Relay S D) : List UInt8 :=
  match conf.preread with
  | none => []
  | some buffer => r.heap.preread.read buffer.pos (buffer.last - buffer.pos)

/-- Where the program stands when the loop of `ngx_nsoc_proxy_process` is left, by `return` with an
exit. -/
def behind (conf : RelayConf) (P : Destination D) (r : Relay S D) : Option ProcessExit → Stage × Relay S D
  | some _ => (.ended, r)
  | none => ((r.leave conf P).1.stage, (r.leave conf P).2)

/-- The start of a relay: nothing was read but what the preread phase has left, and if there is a
connection to write to then nothing was sent on it. -/
structure Initial (conf : RelayConf) (P : Destination D) (size : Nat) (r : Relay S D) : Prop where
  start : r.b.start ≠ 0
  stop : r.b.stop = r.b.start + size + NOISE_PROTOCOL_MAC_DATA_SIZE + 2 * NGX_NSOC_LEN_FIELD_SIZE
  address : r.b.stop < 2 ^ 63
  src : r.src.Fresh
  dst : r.connected → P.fresh r.dst
  out : r.out = []
  busy : r.busy = []
  saved : r.saved = []
  made : r.links.made = 0
  payload : r.payload = if r.connected then [] else r.preread_bytes conf

/-- One step of a session, with a pass of `ngx_nsoc_proxy_process` taken in its two halves. -/
inductive Step (conf : RelayConf) (P : Destination D) (N : NoiseC S) (fuel : Nat) :
    Stage × Relay S D → Stage × Relay S D → Prop where
  | enter (r : Relay S D) (do_write : Bool) (elapsed : Int) :
      Step conf P N fuel (.idle, r) (.writing, r.enter do_write elapsed)
  | write (r r' : Relay S D) (hwrite : r.process_write conf P = ok (none, r')) :
      Step conf P N fuel (.writing, r) (.reading, r')
  | write_end (r r' : Relay S D) (exit : ProcessExit)
      (hwrite : r.process_write conf P = ok (some exit, r')) :
      Step conf P N fuel (.writing, r) (.ended, r')
  | read (r r' : Relay S D) (hread : r.process_read conf N fuel = ok (.cont r')) :
      Step conf P N fuel (.reading, r) (.writing, r')
  | leave (r r' : Relay S D) (exit : Option ProcessExit)
      (hread : r.process_read conf N fuel = ok (.done (exit, r'))) :
      Step conf P N fuel (.reading, r) (r'.behind conf P exit)
  | connect (r : Relay S D) (dst : D) (dst_read : Event) (hconnected : r.connected = false)
      (hdst : P.fresh dst) :
      Step conf P N fuel (.idle, r) (.idle, r.connect conf dst dst_read)
  | elsewhere (r r' : Relay S D) (hr : r.Elsewhere P r') : Step conf P N fuel (.idle, r) (.idle, r')

/-- A run whose steps are all taken in a state that satisfies `cond`. -/
inductive Run (conf : RelayConf) (P : Destination D) (N : NoiseC S) (fuel : Nat)
    (cond : Stage → Relay S D → Prop) (x : Stage × Relay S D) : Stage × Relay S D → Prop where
  | refl : Run conf P N fuel cond x x
  | tail {y z : Stage × Relay S D} (hrun : Run conf P N fuel cond x y) (hcond : cond y.1 y.2)
      (hstep : Step conf P N fuel y z) : Run conf P N fuel cond x z

section

variable {conf : RelayConf} {P : Destination D} {N : NoiseC S} {fuel : Nat}
  {cond : Stage → Relay S D → Prop}

/-- An invariant of the steps holds of every state of a run. -/
theorem Run.invariant (inv : Stage → Relay S D → Prop)
    (hstep : ∀ y z, inv y.1 y.2 → cond y.1 y.2 → Step conf P N fuel y z → inv z.1 z.2)
    {x y : Stage × Relay S D} (hx : inv x.1 x.2) (hrun : Run conf P N fuel cond x y) :
    inv y.1 y.2 := by
  induction hrun with
  | refl => exact hx
  | tail _ hcond hnext ih => exact hstep _ _ ih hcond hnext

theorem Run.trans {x y z : Stage × Relay S D} (hrun : Run conf P N fuel cond x y)
    (hnext : Run conf P N fuel cond y z) : Run conf P N fuel cond x z := by
  induction hnext with
  | refl => exact hrun
  | tail _ hcond hstep ih => exact .tail ih hcond hstep

theorem Run.of_step {x y : Stage × Relay S D} (hcond : cond x.1 x.2) (hstep : Step conf P N fuel x y) :
    Run conf P N fuel cond x y :=
  .tail .refl hcond hstep

/-- A pass that goes round again is a writing half and a reading half. -/
theorem run_of_cont {r r' : Relay S D} (hcond : ∀ stage s, cond stage s)
    (hbody : r.process_body conf P N fuel = ok (.cont r')) :
    Run conf P N fuel cond (.writing, r) (.writing, r') := by
  unfold process_body at hbody
  rw [bind_eq_ok_iff] at hbody
  obtain ⟨⟨exit, s⟩, hwrite, hread⟩ := hbody
  cases exit with
  | some exit => cases hread
  | none => exact (Run.of_step (hcond _ _) (.write r s hwrite)).tail (hcond _ _) (.read s r' hread)

/-- A pass that leaves the loop. -/
theorem run_of_done {r r' : Relay S D} {exit : Option ProcessExit} (hcond : ∀ stage s, cond stage s)
    (hbody : r.process_body conf P N fuel = ok (.done (exit, r'))) :
    Run conf P N fuel cond (.writing, r) (r'.behind conf P exit) := by
  unfold process_body at hbody
  rw [bind_eq_ok_iff] at hbody
  obtain ⟨⟨exited, s⟩, hwrite, hread⟩ := hbody
  cases exited with
  | some exited =>
    cases hread
    exact Run.of_step (hcond _ _) (.write_end r _ _ hwrite)
  | none =>
    have hhalf : Run conf P N fuel cond (.writing, r) (.reading, s) :=
      Run.of_step (hcond _ _) (.write r s hwrite)
    exact hhalf.tail (hcond _ _) (.leave s r' exit hread)

/-- A loop of `ngx_nsoc_proxy_process` that is left, with the entry in front of it. -/
theorem run_of_loop {do_write : Bool} {elapsed : Int} {r s : Relay S D} {exited : Option ProcessExit}
    (hcond : ∀ stage s, cond stage s)
    (hloop : loop (process_body conf P N fuel) fuel (r.enter do_write elapsed) = ok (exited, s)) :
    Run conf P N fuel cond (.idle, r) (s.behind conf P exited) :=
  loop_invariant (fun t => Run conf P N fuel cond (.idle, r) (.writing, t))
    (fun value => Run conf P N fuel cond (.idle, r) (value.2.behind conf P value.1))
    (fun _ _ ht hbody => ht.trans (run_of_cont hcond hbody))
    (fun _ _ ht hbody => ht.trans (run_of_done hcond hbody))
    (Run.of_step (hcond _ _) (.enter r do_write elapsed)) hloop

/-- A call of `ngx_nsoc_proxy_process` that returns is a run. -/
theorem run_of_process {stopping do_write : Bool} {elapsed : Int} {r r' : Relay S D}
    {exit : ProcessExit} (hcond : ∀ stage s, cond stage s) (hstopping : ¬ (conf.dgram ∧ stopping))
    (hprocess : r.process conf P N fuel stopping do_write elapsed = ok (exit, r')) :
    ∃ stage, Run conf P N fuel cond (.idle, r) (stage, r') := by
  rw [process, if_neg hstopping, bind_eq_ok_iff] at hprocess
  obtain ⟨⟨exited, s⟩, hloop, hend⟩ := hprocess
  have hrun : Run conf P N fuel cond (.idle, r) (s.behind conf P exited) := run_of_loop hcond hloop
  cases exited with
  | some exited =>
    cases hend
    exact ⟨_, hrun⟩
  | none =>
    obtain rfl := congrArg Prod.snd (Result.ok.inj hend)
    exact ⟨_, hrun⟩

end

end Relay

end ngx_nsoc
