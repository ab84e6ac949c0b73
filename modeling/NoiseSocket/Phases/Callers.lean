import NoiseSocket.Phases.Prereading

open Exec Exec.Result

namespace ngx_nsoc

variable {S : Type}

/-- What the calls of `ngx_nsoc_recv_chain` count as data is what the frames carry that have come in, the
call writes into its chain only, and its next pass returns. -/
structure ChainCall.Accumulates (N : NoiseC S) (fuel : Nat) (met : Nat → Nat → Endpoint S → Prop)
    (frames payloads : List (List UInt8)) (got : List UInt8) (x : ChainCall S) : Prop where
  data : ∃ k, got ++ x.accounted = (payloads.take k).flatten ∧
    Endpoint.Ahead N (frames.drop k) (payloads.drop k) x.connection
  within : x.entry.mem.WritesWithin x.connection.mem x.cl.space
  returns : ∀ y, x.flow = .cont y → (¬ y.Reached x.limit → met y.last (y.size x.limit) y.w) →
    ∃ flow, y.recv_chain_body N fuel x.limit = ok flow

namespace core

/-- The state in which the loop of `ngx_nsoc_core_preread_phase` goes round, or which it leaves. -/
def preread_state (flow : ControlFlow (Int × Prereading S) (PrereadEnd S)) : Prereading S :=
  match flow with
  | .cont next => next.2
  | .done stop => stop.state

/-- `c->buffer` holds what the frames carry that have come in, nothing is written outside it, and the next
pass returns. -/
structure PrereadAccumulates (N : NoiseC S) (fuel : Nat) (met : Nat → Nat → Endpoint S → Prop)
    (frames payloads : List (List UInt8)) (conf : SrvConf) (addr : Nat) (w : Endpoint S)
    (flow : ControlFlow (Int × Prereading S) (PrereadEnd S)) : Prop where
  data : ∃ k, (preread_state flow).held = (payloads.take k).flatten ∧
    Endpoint.Ahead N (frames.drop k) (payloads.drop k) (preread_state flow).w
  within : w.mem.WritesWithin (preread_state flow).w.mem (Set.Ico addr (addr + conf.preread_buffer_size))
  returns : ∀ x, flow = .cont x → (∀ b v, x.2.preread_front conf addr x.1 = .cont (b, v) →
    met b.last (b.stop - b.last) v) → ∀ rc, ∃ next, Prereading.preread_pass N fuel conf addr rc x = ok next

end core

/-- Both callers put together the data that the frames carry, from any state between two calls of `c->recv`
on, as long as every call has the frame placed right. A single call does so exactly then. -/
theorem recv_callers_accumulate {N : NoiseC S} {fuel : Nat} (hfuel : 65536 ≤ fuel)
    {frames payloads : List (List UInt8)} {w : Endpoint S} (hw : Endpoint.Ahead N frames payloads w) :
    (∀ got x, ChainRun N fuel (Endpoint.Placed N) w got x →
      x.Accumulates N fuel (Endpoint.Placed N) frames payloads got) ∧
    (∀ conf addr flow, addr ≠ 0 → core.PrereadRun N fuel conf addr (Endpoint.Placed N) w flow →
      core.PrereadAccumulates N fuel (Endpoint.Placed N) frames payloads conf addr w flow) ∧
    ∀ addr size, addr ≠ 0 →
      (Endpoint.Accounts N fuel addr size frames payloads w ↔ Endpoint.Placed N addr size w) := by
  refine ⟨?_, ?_, fun addr size haddr => Endpoint.recv_accounts_iff hfuel haddr hw⟩
  · intro got x hrun
    obtain ⟨k, hk⟩ := hrun.sound hfuel hw
    refine ⟨⟨k, hk.accounted, hk.ahead⟩, hk.within, ?_⟩
    intro y hat hmet
    obtain ⟨flow, hflow, -⟩ := hk.pass hfuel hat hmet
    exact ⟨flow, hflow⟩
  · intro conf addr flow haddr hrun
    obtain ⟨k, hk⟩ := hrun.sound hfuel haddr hw
    have hstate : core.Prereading.Sound N conf addr frames payloads w (core.preread_state flow) k := by
      cases flow with
      | cont next => exact hk
      | done stop => exact hk
    refine ⟨⟨k, hstate.held, hstate.ahead⟩, hstate.within, ?_⟩
    rintro x rfl hmet rc
    obtain ⟨next, hnext, -⟩ := core.Prereading.Sound.pass hfuel haddr x.1 hstate rc hmet
    exact ⟨next, hnext⟩

namespace Endpoint

/-- A frame whose payload is spelled: two zeros that were there, its length, and its own first bytes. -/
def spelled_frame : List UInt8 := [0, 6, 0, 0, 0, 6, 0, 0] ++ Pattern.tag

/-- Another one, for which the last two of these bytes are there. -/
def next_frame : List UInt8 := [0, 6, 0, 6, 0, 6, 0, 6] ++ Pattern.tag

/-- A connection with both before it. The first segment ends inside the first frame. -/
def spelled_reader : Endpoint Pattern :=
  pattern_server [.data 0 ([24] ++ spelled_frame.take 2), .again,
    .data 0 (spelled_frame.drop 3 ++ [0, 24] ++ next_frame)] false

theorem spelled_reader_ahead :
    Ahead pattern_xx [spelled_frame, next_frame] [[0, 0, 0, 6, 0, 0], [0, 6, 0, 6, 0, 6]] spelled_reader := by
  have hlistener : Listener spelled_reader (wire [spelled_frame, next_frame]) :=
    ⟨⟨rfl, by decide, rfl⟩, 0, .between rfl rfl⟩
  refine .listening hlistener List.prefix_rfl ?_
  exact @Carries.cons _ _ _ _ _ _ [] _ _ rfl (by decide) rfl
    (@Carries.cons _ _ _ _ _ _ [] _ _ rfl (by decide) rfl (.nil _))

/-- The part of a frame that has arrived lies in the buffer. -/
theorem placed_of_part {w : Endpoint Pattern} {addr size : Nat} {b : Body} (hlast : w.nc.last ≠ NGX_ERROR)
    (hbody : w.body addr = some b) (hpart : ¬ b.Whole) (hlow : addr ≤ b.start)
    (hhigh : b.start + b.len ≤ addr + size) : Placed pattern_xx addr size w := by
  rw [placed_iff_of_part hlast (fun b' hb' => Option.some.inj (hbody.symm.trans hb') ▸ hpart)]
  exact footprint_subset hbody hlow hhigh

/-- A whole frame whose payload is spelled. -/
theorem placed_of_whole (payload : List UInt8) {w : Endpoint Pattern} {addr size : Nat} {b : Body}
    (hlast : w.nc.last ≠ NGX_ERROR) (hbody : w.body addr = some b) (hwhole : b.Whole) (hlow : addr ≤ b.start)
    (hhigh : b.start + b.len ≤ addr + size) (hfits : payload.length < 65536)
    (hopen : pattern_xx.cipherstate_decrypt (b.bytes w.mem) w.noise =
      ((NOISE_ERROR_NONE, lenBytes payload.length ++ payload ++ []), w.noise))
    (hspelled : (w.mem.read addr (b.start - addr) ++ lenBytes payload.length ++ payload).take payload.length =
      payload) : Placed pattern_xx addr size w := by
  rw [placed_iff_of_whole hlast hbody hwhole hfits hopen]
  exact ⟨footprint_subset hbody hlow hhigh, hspelled⟩

end Endpoint

/-- A chain of one buffer of a hundred bytes. -/
def one_buffer : FreeChain where
  buf := ⟨100, 200, by decide⟩
  next := []
  apart := List.pairwise_singleton _ _
  addressed := by decide

/-- Both callers put the two payloads together, the first of which takes two calls. -/
theorem recv_callers_accumulate_of_spelled :
    (∃ x, ChainRun pattern_xx 65536 (Endpoint.Placed pattern_xx) Endpoint.spelled_reader [] x ∧ x.bytes = 12 ∧
      x.Accumulates pattern_xx 65536 (Endpoint.Placed pattern_xx) [Endpoint.spelled_frame, Endpoint.next_frame]
        [[0, 0, 0, 6, 0, 0], [0, 6, 0, 6, 0, 6]] []) ∧
    (∃ flow, core.PrereadRun pattern_xx 65536 ⟨false, 100⟩ 100 (Endpoint.Placed pattern_xx)
        Endpoint.spelled_reader flow ∧ (core.preread_state flow).held.length = 12 ∧
      core.PrereadAccumulates pattern_xx 65536 (Endpoint.Placed pattern_xx)
        [Endpoint.spelled_frame, Endpoint.next_frame] [[0, 0, 0, 6, 0, 0], [0, 6, 0, 6, 0, 6]] ⟨false, 100⟩ 100
        Endpoint.spelled_reader flow) ∧
    Endpoint.Accounts pattern_xx 65536 100 100 [Endpoint.spelled_frame, Endpoint.next_frame]
      [[0, 0, 0, 6, 0, 0], [0, 6, 0, 6, 0, 6]] Endpoint.spelled_reader := by
  obtain ⟨hchain, hpreread, hcall⟩ :=
    recv_callers_accumulate (Nat.le_refl 65536) Endpoint.spelled_reader_ahead
  have hpart : Endpoint.Placed pattern_xx 100 100 Endpoint.spelled_reader :=
    Endpoint.placed_of_part (b := ⟨102, 24, 0, [0, 6]⟩) (by decide) rfl (by decide) (by decide) (by decide)
  refine ⟨?_, ?_, (hcall 100 100 (by decide)).mpr hpart⟩
  · have hsuspended : ChainRun pattern_xx 65536 (Endpoint.Placed pattern_xx) Endpoint.spelled_reader [] _ :=
      .pass (.first one_buffer 0) rfl (fun _ => hpart) rfl
    have hfirst := (hsuspended.next rfl Event.fresh one_buffer 0).pass rfl (fun _ =>
      Endpoint.placed_of_whole [0, 0, 0, 6, 0, 0] (by decide) rfl (by decide) (by decide) (by decide)
        (by decide) rfl rfl) rfl
    have hsecond := hfirst.pass rfl (fun _ =>
      Endpoint.placed_of_whole [0, 6, 0, 6, 0, 6] (by decide) rfl (by decide) (by decide) (by decide)
        (by decide) rfl rfl) rfl
    exact ⟨_, hsecond, rfl, hchain _ _ hsecond⟩
  · -- the session waits until there is something to read
    have hwait : core.PrereadRun pattern_xx 65536 ⟨false, 100⟩ 100 (Endpoint.Placed pattern_xx)
        Endpoint.spelled_reader _ := .pass (.enter NGX_AGAIN) NGX_AGAIN (by rintro b v ⟨⟩) rfl
    have hready := hwait.again { Event.fresh with ready := true } NGX_AGAIN
    have hsuspended := hready.pass NGX_AGAIN (by
      rintro b v ⟨⟩
      exact Endpoint.placed_of_part (b := ⟨102, 24, 0, [0, 6]⟩) (by decide) rfl (by decide) (by decide)
        (by decide)) rfl
    have hagain := (hsuspended.pass NGX_AGAIN (by rintro b v ⟨⟩) rfl).again
      { Event.fresh with ready := true } NGX_AGAIN
    have hresumed := hagain.pass NGX_AGAIN (by
      rintro b v ⟨⟩
      exact Endpoint.placed_of_whole [0, 0, 0, 6, 0, 0] (by decide) rfl (by decide) (by decide)
        (by decide) (by decide) rfl rfl) rfl
    have hsecond := hresumed.pass 0 (by
      rintro b v ⟨⟩
      exact Endpoint.placed_of_whole [0, 6, 0, 6, 0, 6] (by decide) rfl (by decide) (by decide)
        (by decide) (by decide) rfl rfl) rfl
    exact ⟨_, hsecond, rfl, hpreread _ _ _ (by decide) hsecond⟩

/-- A frame that carries 1, 2, 3 is counted as three bytes, of which two were there before and the third is the
first of its length. -/
theorem not_accumulates_of_shifted : ¬ ∀ got x,
    ChainRun pattern_xx 65536 (fun _ _ _ => True)
        (Endpoint.pattern_server [.data 0 ([21, 0, 3, 1, 2, 3] ++ Pattern.tag)] false) got x →
      x.Accumulates pattern_xx 65536 (fun _ _ _ => True) [[0, 3, 1, 2, 3] ++ Pattern.tag] [[1, 2, 3]] got := by
  intro hall
  have hrun : ChainRun pattern_xx 65536 (fun _ _ _ => True)
      (Endpoint.pattern_server [.data 0 ([21, 0, 3, 1, 2, 3] ++ Pattern.tag)] false) [] _ :=
    .pass (.first one_buffer 0) rfl (fun _ => trivial) rfl
  obtain ⟨k, hk, -⟩ := (hall _ _ hrun).data
  have hshifted : ([0, 0, 0] : List UInt8) = (([[1, 2, 3]] : List (List UInt8)).take k).flatten := hk
  cases k with
  | zero => cases hshifted
  | succ k => simp at hshifted

end ngx_nsoc
