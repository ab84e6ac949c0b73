import NoiseSocket.Handler.RecvChain.Run
import NoiseSocket.Phases

open Exec Exec.Result

namespace ngx_nsoc

variable {S : Type}

namespace core

/-- The connection of a session in the preread phase, with `c->buffer`. -/
structure Prereading (S : Type) where
  w : Endpoint S
  buffer : Option RawBuf

/-- How the loop of `ngx_nsoc_core_preread_phase` ends: to be woken up, or with a code for the phases. -/
inductive PrereadEnd (S : Type) where
  | suspended (x : Prereading S)
  | left (rc : Int) (x : Prereading S)

namespace PrereadEnd

/-- What the loop leaves. -/
def state : PrereadEnd S → Prereading S
  | suspended x => x
  | left _ x => x

end PrereadEnd

namespace Prereading

/-- `c->buffer` is there, or it is allocated at `addr`. -/
def prepare_buffer (conf : SrvConf) (addr : Nat) (x : Prereading S) : Option RawBuf × Endpoint S :=
  match x.buffer with
  | some b => (some b, x.w)
  | none =>
    let alloc := x.w.ngx_alloc
    if alloc.1 then (some ⟨addr, addr, addr, addr + conf.preread_buffer_size⟩, alloc.2)
    else (none, alloc.2)

/-- The timer is armed and the phases are the handler of the next read event. -/
def await_read (w : Endpoint S) : Endpoint S :=
  { w with c := { w.c with read := { w.c.read with timer_set := true, handler := .session_handler } } }

/-- One pass of the loop of `ngx_nsoc_core_preread_phase` in front of `c->recv`. -/
def preread_front (conf : SrvConf) (addr : Nat) (rc : Int) (x : Prereading S) :
    ControlFlow (RawBuf × Endpoint S) (PrereadEnd S) :=
  if rc ≠ NGX_AGAIN then .done (.left rc x) else
  match x.prepare_buffer conf addr with
  | (none, w) => .done (.left NGX_ERROR ⟨w, none⟩)
  | (some b, w) =>
    if b.stop - b.last = 0 then .done (.left NGX_NSOC_BAD_REQUEST ⟨w, some b⟩)
    else if w.c.read.eof then .done (.left NGX_NSOC_OK ⟨w, some b⟩)
    else if ¬ w.c.read.ready then
      let event := w.ngx_handle_event
      if event.1 ≠ NGX_OK then .done (.left NGX_ERROR ⟨event.2, some b⟩)
      else .done (.suspended ⟨await_read event.2, some b⟩)
    else .cont (b, w)

/-- The rest of the pass: `c->recv` behind the bytes in `c->buffer`. `ph->handler` looks at them and
returns `rc`. -/
def preread_recv (N : NoiseC S) (fuel : Nat) (rc : Int) (b : RawBuf) (w : Endpoint S) :
    Result (ControlFlow (Int × Prereading S) (PrereadEnd S)) := do
  let r ← w.recv N fuel b.last (b.stop - b.last)
  if r.1 = NGX_ERROR then ok (.done (.left NGX_NSOC_OK ⟨r.2, some b⟩))
  else ok (.cont (rc, ⟨r.2, some (if 0 < r.1 then { b with last := b.last + r.1.toNat } else b)⟩))

/-- One pass of the loop of `ngx_nsoc_core_preread_phase`. -/
def preread_pass (N : NoiseC S) (fuel : Nat) (conf : SrvConf) (addr : Nat) (rc : Int)
    (x : Int × Prereading S) : Result (ControlFlow (Int × Prereading S) (PrereadEnd S)) :=
  match x.2.preread_front conf addr x.1 with
  | .done stop => ok (.done stop)
  | .cont (b, w) => preread_recv N fuel rc b w

/-- What `c->buffer` holds. -/
def held (x : Prereading S) : List UInt8 :=
  match x.buffer with
  | none => []
  | some b => x.w.mem.read b.pos (b.last - b.pos)

end Prereading

/-- The loop of `ngx_nsoc_core_preread_phase`, from a session that has no `c->buffer` on, as far as every
`c->recv` in it is `met`. A handler may return anything. The loop is entered again when an event wakes the
session up, and for the next handler of the phase. -/
inductive PrereadRun (N : NoiseC S) (fuel : Nat) (conf : SrvConf) (addr : Nat)
    (met : Nat → Nat → Endpoint S → Prop) (w : Endpoint S) :
    ControlFlow (Int × Prereading S) (PrereadEnd S) → Prop
  | enter (rc : Int) : PrereadRun N fuel conf addr met w (.cont (rc, ⟨w, none⟩))
  | pass {x : Int × Prereading S} {flow : ControlFlow (Int × Prereading S) (PrereadEnd S)}
      (hrun : PrereadRun N fuel conf addr met w (.cont x)) (rc : Int)
      (hmet : ∀ b v, x.2.preread_front conf addr x.1 = .cont (b, v) → met b.last (b.stop - b.last) v)
      (hpass : Prereading.preread_pass N fuel conf addr rc x = ok flow) : PrereadRun N fuel conf addr met w flow
  | again {stop : PrereadEnd S} (hrun : PrereadRun N fuel conf addr met w (.done stop)) (read : Event)
      (rc : Int) : PrereadRun N fuel conf addr met w
        (.cont (rc, ⟨stop.state.w.setReadEvent read, stop.state.buffer⟩))

namespace Prereading

/-- A state of a run: the frames that are ahead of the connection, and what `c->buffer` holds. -/
structure Sound (N : NoiseC S) (conf : SrvConf) (addr : Nat) (frames payloads : List (List UInt8))
    (w : Endpoint S) (x : Prereading S) (k : Nat) : Prop where
  ahead : Endpoint.Ahead N (frames.drop k) (payloads.drop k) x.w
  held : x.held = (payloads.take k).flatten
  within : w.mem.WritesWithin x.w.mem (Set.Ico addr (addr + conf.preread_buffer_size))
  buffer : ∀ b, x.buffer = some b →
    b.pos = addr ∧ b.pos ≤ b.last ∧ b.last ≤ b.stop ∧ b.stop = addr + conf.preread_buffer_size

section

variable {N : NoiseC S} {fuel addr k : Nat} {conf : SrvConf} {frames payloads : List (List UInt8)}
  {w v : Endpoint S} {x : Prereading S} {b : RawBuf}

/-- Only some parts of the connection matter. -/
theorem Sound.of_eq (h : Sound N conf addr frames payloads w ⟨v, x.buffer⟩ k) {u : Endpoint S}
    (hid : u.c.id = v.c.id) (hnc : u.nc = v.nc) (hnoise : u.noise = v.noise) (hmem : u.mem = v.mem)
    (hrx : u.env.rx = v.env.rx) (hallocs : u.env.allocs = v.env.allocs) :
    Sound N conf addr frames payloads w ⟨u, x.buffer⟩ k := by
  refine ⟨h.ahead.of_eq hid hnc hnoise hmem hrx hallocs, ?_, ?_, h.buffer⟩
  · have hheld := h.held
    unfold Prereading.held at hheld ⊢
    rwa [hmem]
  · rw [hmem]
    exact h.within

theorem Sound.prepare_buffer (h : Sound N conf addr frames payloads w x k) {b? : Option RawBuf}
    (hprepare : x.prepare_buffer conf addr = (b?, v)) : Sound N conf addr frames payloads w ⟨v, b?⟩ k := by
  unfold Prereading.prepare_buffer at hprepare
  cases hbuffer : x.buffer with
  | some b =>
    rw [hbuffer] at hprepare
    cases hprepare
    rwa [← hbuffer]
  | none =>
    have hnil : (payloads.take k).flatten = [] := by
      rw [← h.held, Prereading.held, hbuffer]
    have hahead : Endpoint.Ahead N (frames.drop k) (payloads.drop k) x.w.ngx_alloc.2 := h.ahead.ngx_alloc
    rw [hbuffer] at hprepare
    dsimp only at hprepare
    split_ifs at hprepare
    all_goals cases hprepare
    · refine ⟨hahead, ?_, h.within, ?_⟩
      · rw [hnil]
        simp [Prereading.held]
      · rintro _ ⟨⟩
        exact ⟨rfl, Nat.le_refl _, Nat.le_add_right _ _, rfl⟩
    · exact ⟨hahead, hnil.symm, h.within, nofun⟩

/-- The part of a pass in front of `c->recv`. -/
theorem Sound.front (h : Sound N conf addr frames payloads w x k) (rc : Int) :
    (x.preread_front conf addr rc).Holds
      (fun call => Sound N conf addr frames payloads w ⟨call.2, some call.1⟩ k)
      fun stop => Sound N conf addr frames payloads w stop.state k := by
  unfold preread_front
  by_cases hrc : rc ≠ NGX_AGAIN
  · rw [if_pos hrc]
    exact h
  rw [if_neg hrc]
  rcases hprepare : x.prepare_buffer conf addr with ⟨_ | b, v⟩
  · exact h.prepare_buffer hprepare
  have hb := h.prepare_buffer hprepare
  have hevent : Sound N conf addr frames payloads w ⟨v.ngx_handle_event.2, some b⟩ k :=
    hb.of_eq (x := ⟨v, some b⟩) rfl rfl rfl rfl rfl rfl
  dsimp only
  split_ifs
  · exact hb
  · exact hb
  · exact hb
  · exact hevent
  · exact hevent.of_eq (x := ⟨v, some b⟩) rfl rfl rfl rfl rfl rfl

/-- `c->recv` behind the bytes in `c->buffer`. -/
theorem Sound.recv (hfuel : 65536 ≤ fuel) (haddr : addr ≠ 0)
    (h : Sound N conf addr frames payloads w ⟨v, some b⟩ k)
    (hmet : Endpoint.Placed N b.last (b.stop - b.last) v) (rc : Int) :
    ∃ flow, preread_recv N fuel rc b v = ok flow ∧ ∃ k, flow.Holds
      (fun next => Sound N conf addr frames payloads w next.2 k)
      fun stop => Sound N conf addr frames payloads w stop.state k := by
  obtain ⟨hpos, hlow, hhigh, hstop⟩ := h.buffer b rfl
  obtain ⟨r, k', hr, hle, hwithin, hread, hahead⟩ :=
    (Endpoint.recv_accounts_iff hfuel (show b.last ≠ 0 by omega) h.ahead).mpr hmet
  rw [List.drop_drop, List.drop_drop] at hahead
  have hn : b.last + r.1.toNat ≤ b.stop := by omega
  have hspace : w.mem.WritesWithin r.2.mem (Set.Ico addr (addr + conf.preread_buffer_size)) := by
    refine h.within.trans (hwithin.mono ?_)
    intro y hy
    have hge := hy.1
    have hlt := hy.2
    exact ⟨by omega, by omega⟩
  have hall : r.2.mem.read b.pos (b.last + r.1.toNat - b.pos) = (payloads.take (k + k')).flatten := by
    have hheld : v.mem.read b.pos (b.last - b.pos) = (payloads.take k).flatten := h.held
    have hsame : r.2.mem.read b.pos (b.last - b.pos) = v.mem.read b.pos (b.last - b.pos) := by
      apply hwithin.read
      intro y hy
      have hge := hy.1
      omega
    rw [show b.last + r.1.toNat - b.pos = b.last - b.pos + r.1.toNat by omega, Memory.read_add, hsame, hheld,
      Nat.add_sub_cancel' hlow, hread, List.take_add, List.flatten_append]
  have hbuffer : ∀ n, b.last + n ≤ b.stop → ∀ b', some { b with last := b.last + n } = some b' →
      b'.pos = addr ∧ b'.pos ≤ b'.last ∧ b'.last ≤ b'.stop ∧ b'.stop = addr + conf.preread_buffer_size := by
    rintro n hfits _ ⟨⟩
    exact ⟨hpos, by dsimp only; omega, hfits, hstop⟩
  have hkept : r.1.toNat = 0 → Sound N conf addr frames payloads w ⟨r.2, some b⟩ (k + k') := by
    intro hzero
    rw [hzero, Nat.add_zero] at hall
    exact ⟨hahead, hall, hspace, h.buffer⟩
  unfold preread_recv
  rw [hr, bind_ok]
  by_cases herror : r.1 = NGX_ERROR
  · rw [if_pos herror]
    exact ⟨_, rfl, k + k', hkept (by simp [herror])⟩
  rw [if_neg herror]
  refine ⟨_, rfl, k + k', ?_⟩
  by_cases hdata : 0 < r.1
  · simp only [if_pos hdata]
    exact ⟨hahead, hall, hspace, hbuffer _ hn⟩
  · simp only [if_neg hdata]
    exact hkept (by omega)

/-- One pass. -/
theorem Sound.pass (hfuel : 65536 ≤ fuel) (haddr : addr ≠ 0) (rc : Int)
    (h : Sound N conf addr frames payloads w x k) (rc' : Int)
    (hmet : ∀ b v, x.preread_front conf addr rc = .cont (b, v) →
      Endpoint.Placed N b.last (b.stop - b.last) v) :
    ∃ flow, preread_pass N fuel conf addr rc' (rc, x) = ok flow ∧ ∃ k, flow.Holds
      (fun next => Sound N conf addr frames payloads w next.2 k)
      fun stop => Sound N conf addr frames payloads w stop.state k := by
  have hfront := h.front rc
  unfold preread_pass
  dsimp only
  rcases hflow : x.preread_front conf addr rc with ⟨b, v⟩ | stop
  · rw [hflow] at hfront
    exact Sound.recv hfuel haddr hfront (hmet b v hflow) rc'
  · rw [hflow] at hfront
    exact ⟨_, rfl, k, hfront⟩

end

end Prereading

/-- A run. The induction is on its passes, and on how often it is entered. -/
theorem PrereadRun.sound {N : NoiseC S} {fuel addr : Nat} {conf : SrvConf}
    {frames payloads : List (List UInt8)} {w : Endpoint S}
    {flow : ControlFlow (Int × Prereading S) (PrereadEnd S)} (hfuel : 65536 ≤ fuel) (haddr : addr ≠ 0)
    (hw : Endpoint.Ahead N frames payloads w)
    (h : PrereadRun N fuel conf addr (Endpoint.Placed N) w flow) : ∃ k, flow.Holds
      (fun next => Prereading.Sound N conf addr frames payloads w next.2 k)
      fun stop => Prereading.Sound N conf addr frames payloads w stop.state k := by
  induction h with
  | enter rc => exact ⟨0, hw, rfl, .refl _ _, nofun⟩
  | @pass x flow hrun rc hmet hpass ih =>
    obtain ⟨k, hk⟩ := ih
    obtain ⟨flow', hflow, hsound⟩ := Prereading.Sound.pass hfuel haddr x.1 hk rc hmet
    obtain rfl := Result.ok.inj (hpass.symm.trans hflow)
    exact hsound
  | @again stop hrun read rc ih =>
    obtain ⟨k, hk⟩ := ih
    refine ⟨k, ?_⟩
    exact Prereading.Sound.of_eq (x := stop.state) hk rfl rfl rfl rfl rfl rfl

end core

end ngx_nsoc
