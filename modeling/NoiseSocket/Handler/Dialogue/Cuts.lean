import NoiseSocket.Handler.Dialogue.Progress

open Exec Exec.Result

namespace ngx_nsoc

variable {S : Type}

namespace Endpoint

section

variable {N : NoiseC S} {start w : Endpoint S} {r : Int × Endpoint S} {given left : List UInt8}

theorem AtMessage.wake (h : w.AtMessage left) (read write : Bool) : (w.wake read write).AtMessage left :=
  ⟨h.steady.congr rfl rfl, h.buf, h.unset, h.num, h.first, h.later, h.left⟩

/-- An event makes no difference to where an endpoint stands. -/
theorem Stands.wake (h : w.Stands N left) (read write : Bool) : (w.wake read write).Stands N left := by
  refine ⟨h.steady.congr rfl rfl, h.unset, ?_⟩
  cases h.place with
  | header hphase hnum hneg hclient hbuf hleft => exact .header hphase hnum hneg hclient hbuf hleft
  | behind_len hphase hnum hrole hneg hbuf hleft => exact .behind_len hphase hnum hrole hneg hbuf hleft
  | message hphase hat hlast hwrite => exact .message hphase (hat.wake read write) hlast hwrite

theorem Fresh.stands (hfresh : start.Fresh) (hsteady : start.Steady) (N : NoiseC S) :
    start.Stands N start.env.rx.bytes := by
  obtain ⟨ctx, buffer_size, role, buffer, hnc⟩ := hfresh.nc
  refine ⟨hsteady, by rw [hnc]; rfl, .header ?_ ?_ ?_ ?_ ?_ ?_⟩
  all_goals rw [hnc]
  · rfl
  · rfl
  · rfl
  · exact fun _ => rfl
  · rfl
  · rfl

/-- Wherever an endpoint has got to by reads that go on, its dialogue has got to. -/
theorem Reached.stands (hN : RespondersRead N) (hstart : start.Stands N given)
    (hrun : Reached N (Uncut N) start w) :
    ∃ left, w.Stands N left ∧ Dialogue.Onward N (start.dialogue given) (w.dialogue left) := by
  induction hrun with
  | first => exact ⟨given, hstart, .refl⟩
  | next _ _ hphase ih =>
    obtain ⟨left, hw, honward⟩ := ih
    cases phase_simulated hN hw hphase with
    | next hturn hv => exact ⟨_, hv, honward.next hturn⟩
  | resumed _ hcond hphase ih =>
    obtain ⟨left, hw, honward⟩ := ih
    cases phase_simulated hN hw hphase with
    | sent hturn hv _ => exact ⟨_, hv.wake _ _, honward.next hturn⟩
    | waits _ _ hon =>
      obtain ⟨hsame, hv⟩ := hon hcond
      refine ⟨left, hv.wake _ _, ?_⟩
      show Dialogue.Onward N _ (dialogue _ left)
      rw [← hsame] at honward
      exact honward
    | ended _ _ hn => exact absurd rfl hn

/-- What comes of a run is what comes of the dialogue. -/
theorem Reached.comes {fuel : Nat} (hN : RespondersRead N) (hstart : start.Stands N given)
    (hrun : Reached N (Uncut N) start w) (hlast : w.phase N fuel = ok (.done r))
    (hwait : r.1 = NGX_AGAIN → r.2.env.rx.bytes = []) :
    ∃ out d, Dialogue.Comes N (start.dialogue given) (out, d) ∧ r.1 = out.getD NGX_AGAIN ∧ r.2.Shows d := by
  obtain ⟨left, hw, honward⟩ := hrun.stands hN hstart
  cases phase_simulated hN hw hlast with
  | sent hturn hv hnothing =>
    exact ⟨none, _, honward.comes (.next hturn (.waits (hnothing (hwait rfl)))), rfl, shows_dialogue _ _⟩
  | waits hturn hshows _ => exact ⟨none, _, honward.comes (.waits (hturn (hwait rfl))), rfl, hshows⟩
  | @ended n v d hturn hshows _ => exact ⟨some n, d, honward.comes (.ended hturn), rfl, hshows⟩

end

/-- A handshake from its beginning to its result, or to where it has read all that its peer sends and waits
on. -/
structure Ends (N : NoiseC S) (cond : Endpoint S → Prop) (start : Endpoint S) (r : Int × Endpoint S) : Prop where
  run : ∃ fuel w, Reached N cond start w ∧ w.phase N fuel = ok (.done r)
  wait : r.1 = NGX_AGAIN → r.2.env.rx.bytes = []

theorem Reached.of_imp {N : NoiseC S} {cond cond' : Endpoint S → Prop} {start w : Endpoint S}
    (h : Reached N cond start w) (himp : ∀ w, cond w → cond' w) : Reached N cond' start w := by
  induction h with
  | first => exact .first
  | next _ hcond hphase ih => exact .next ih (himp _ hcond) hphase
  | resumed _ hcond hphase ih => exact .resumed ih (himp _ hcond) hphase

theorem Ends.of_imp {N : NoiseC S} {cond cond' : Endpoint S → Prop} {start : Endpoint S} {r : Int × Endpoint S}
    (h : Ends N cond start r) (himp : ∀ w, cond w → cond' w) : Ends N cond' start r := by
  obtain ⟨fuel, w, hrun, hlast⟩ := h.run
  exact ⟨⟨fuel, w, hrun.of_imp himp, hlast⟩, h.wait⟩

/-- Two handshakes have ended alike: with the same result, after the same calls into noise-c with the same
effect, with the same header taken over and the same bytes sent. -/
structure Alike (r r' : Int × Endpoint S) : Prop where
  result : r.1 = r'.1
  handed : calls r.2.trace = calls r'.2.trace
  noise : r.2.noise = r'.2.noise
  prologue : r.2.prologue = r'.2.prologue
  tx : r.2.env.tx = r'.2.env.tx

/-- However the bytes of the peer are cut: if the handshake ends for one cut, then for another it goes on from
wherever it has got to, and ends alike. Nothing may be read on behind a header or a noise message of which
only a part has come in. -/
theorem alike_of_uncut {N : NoiseC S} (hN : RespondersRead N) {start : Endpoint S} (hfresh : start.Fresh)
    (hgranted : start.Granted) (hsends : start.env.sends = []) {rx rx' : Net.Incoming} (hlive : rx.Live)
    (hlive' : rx'.Live) (hbytes : rx.bytes = rx'.bytes) {r : Int × Endpoint S}
    (hends : Ends N (Uncut N) (start.leaving rx) r) :
    (∀ w, Reached N (Uncut N) (start.leaving rx') w → ∃ flow, Settles (fun fuel => w.phase N fuel) (ok flow)) ∧
      ∀ r', Ends N (Uncut N) (start.leaving rx') r' → Alike r r' := by
  have hstands : ∀ {rx : Net.Incoming}, rx.Live → (start.leaving rx).Stands N rx.bytes := by
    intro rx hlive
    have hfresh' : (start.leaving rx).Fresh := ⟨hfresh.nc, hfresh.eof, hfresh.transport, hfresh.trace⟩
    exact hfresh'.stands ⟨⟨hgranted.events, hgranted.allocs, hgranted.eof⟩, hsends, hlive⟩ N
  obtain ⟨fuel, w, hrun, hlast⟩ := hends.run
  obtain ⟨out, d, hcome, hresult, hshows⟩ := hrun.comes hN (hstands hlive) hlast hends.wait
  have hcome : Dialogue.Comes N ((start.leaving rx').dialogue rx'.bytes) (out, d) := hbytes ▸ hcome
  constructor
  · intro w' hrun'
    obtain ⟨left, hw, honward⟩ := hrun'.stands hN (hstands hlive')
    obtain ⟨x, hdiv, hsettles, hfault⟩ := hw.settles
    cases x with
    | ok flow => exact ⟨flow, hsettles⟩
    | fault => exact absurd (hfault rfl) (honward.ne_fault hcome)
    | div => exact absurd rfl hdiv
  · intro r' hends'
    obtain ⟨fuel', w', hrun', hlast'⟩ := hends'.run
    obtain ⟨out', d', hcome', hresult', hshows'⟩ := hrun'.comes hN (hstands hlive') hlast' hends'.wait
    cases hcome.unique hcome'
    exact ⟨hresult.trans hresult'.symm, hshows.handed.trans hshows'.handed.symm,
      hshows.noise.trans hshows'.noise.symm, hshows.prologue.trans hshows'.prologue.symm,
      hshows.tx.trans hshows'.tx.symm⟩

theorem respondersRead_pattern_xx : RespondersRead pattern_xx := by
  intro w v hrole hinit
  have hnoise : v.noise = ⟨.responder, 0⟩ := by
    simp only [ngx_noise_protocol.init_handshake, pattern_xx, hrole, ngx_noise_protocol.noise_role,
      ngx_noise_protocol.init_local_keypair, ngx_noise_protocol.init_remote_public_key, ne_eq, not_true,
      if_false, if_true, Bool.false_eq_true] at hinit
    cases hkeys : w.nc.noise_ctx.private_keys with
    | none =>
      rw [hkeys] at hinit
      cases hinit
    | some keys =>
      rw [hkeys] at hinit
      cases hinit
      rfl
  rw [hnoise]
  decide

/-- The first and the third message of the pattern, behind the header, in one segment. -/
def in_one : Net.Incoming :=
  ⟨[.data 0 ([6] ++ proxy_prologue.header.bytes ++ [0, 32] ++ Pattern.message 0 ++ [0, 0, 0, 64] ++
    Pattern.message 2)], false⟩

/-- With pauses inside both negotiation lengths, and in front of the header. -/
def in_four : Net.Incoming :=
  ⟨[.data 0 [], .again, .data 6 [], .again,
    .data 0 ([1, 1, 2, 2, 9] ++ [0, 32] ++ Pattern.message 0 ++ [0]), .again,
    .data 0 ([0, 64] ++ Pattern.message 2)], false⟩

/-- With a pause inside the length of the first noise message. -/
def in_two : Net.Incoming :=
  ⟨[.data 0 ([6] ++ proxy_prologue.header.bytes ++ [0]), .again,
    .data 32 (Pattern.message 0 ++ [0, 0, 0, 64] ++ Pattern.message 2)], false⟩

/-- In one segment the handshake is completed. -/
theorem ends_in_one : ∃ r, Ends pattern_xx (Uncut pattern_xx) ((pattern_server [] false).leaving in_one) r ∧
    r.1 = NGX_OK := by
  obtain ⟨h0, v, hstart, h1, u, hread, h2, x, hsent, h3, y, hread', r, hend, hok⟩ :
      ((pattern_server [] false).leaving in_one).Uncut pattern_xx ∧
      ∃ v, ((pattern_server [] false).leaving in_one).phase pattern_xx 8 = ok (.cont v) ∧ v.Uncut pattern_xx ∧
      ∃ u, v.phase pattern_xx 8 = ok (.cont u) ∧ u.Uncut pattern_xx ∧
      ∃ x, u.phase pattern_xx 8 = ok (.done (NGX_AGAIN, x)) ∧ (x.wake true false).Uncut pattern_xx ∧
      ∃ y, (x.wake true false).phase pattern_xx 8 = ok (.cont y) ∧
      ∃ r, y.phase pattern_xx 8 = ok (.done r) ∧ r.1 = NGX_OK :=
    ⟨by decide, _, rfl, by decide, _, rfl, by decide, _, rfl, by decide, _, rfl, _, rfl, rfl⟩
  refine ⟨r, ⟨⟨8, y, ?_, hend⟩, fun hagain => ?_⟩, hok⟩
  · exact .next (.resumed (.next (.next .first h0 hstart) h1 hread) h2 hsent) h3 hread'
  · rw [hok] at hagain
    cases hagain

/-- With the pauses of `in_four` nothing has to be read on behind a part, and the handshake ends as in one
segment. -/
theorem alike_of_four : ∃ r r', Ends pattern_xx (Uncut pattern_xx) ((pattern_server [] false).leaving in_four) r' ∧
    r.1 = NGX_OK ∧ Alike r r' := by
  obtain ⟨r, hends, hok⟩ := ends_in_one
  obtain ⟨h0, a, ha, h1, b, hb, h2, v, hstart, h3, u, hread, h4, x, hsent, h5, c, hc, h6, y, hread', r', hend, hok'⟩ :
      ((pattern_server [] false).leaving in_four).Uncut pattern_xx ∧
      ∃ a, ((pattern_server [] false).leaving in_four).phase pattern_xx 8 = ok (.done (NGX_AGAIN, a)) ∧
        (a.wake true false).Uncut pattern_xx ∧
      ∃ b, (a.wake true false).phase pattern_xx 8 = ok (.done (NGX_AGAIN, b)) ∧
        (b.wake true false).Uncut pattern_xx ∧
      ∃ v, (b.wake true false).phase pattern_xx 8 = ok (.cont v) ∧ v.Uncut pattern_xx ∧
      ∃ u, v.phase pattern_xx 8 = ok (.cont u) ∧ u.Uncut pattern_xx ∧
      ∃ x, u.phase pattern_xx 8 = ok (.done (NGX_AGAIN, x)) ∧ (x.wake true false).Uncut pattern_xx ∧
      ∃ c, (x.wake true false).phase pattern_xx 8 = ok (.done (NGX_AGAIN, c)) ∧
        (c.wake true false).Uncut pattern_xx ∧
      ∃ y, (c.wake true false).phase pattern_xx 8 = ok (.cont y) ∧
      ∃ r, y.phase pattern_xx 8 = ok (.done r) ∧ r.1 = NGX_OK :=
    ⟨by decide, _, rfl, by decide, _, rfl, by decide, _, rfl, by decide, _, rfl, by decide, _, rfl, by decide, _, rfl,
      by decide, _, rfl, _, rfl, rfl⟩
  have hends' : Ends pattern_xx (Uncut pattern_xx) ((pattern_server [] false).leaving in_four) r' := by
    refine ⟨⟨8, y, ?_, hend⟩, fun hagain => ?_⟩
    · have hheader : Reached pattern_xx (Uncut pattern_xx) _ (b.wake true false) :=
        .resumed (.resumed .first h0 ha) h1 hb
      have hmessage : Reached pattern_xx (Uncut pattern_xx) _ (x.wake true false) :=
        .resumed (.next (.next hheader h2 hstart) h3 hread) h4 hsent
      exact .next (.resumed hmessage h5 hc) h6 hread'
    · rw [hok'] at hagain
      cases hagain
  refine ⟨r, r', hends', hok, ?_⟩
  refine (alike_of_uncut respondersRead_pattern_xx (fresh_create _ _ _ _ _ _ _ _) ⟨rfl, rfl, rfl⟩ rfl ⟨rfl, ?_⟩
    ⟨rfl, ?_⟩ (by decide) hends).2 r' hends'
  · decide
  · decide

/-- Behind the pause of `in_two` the server takes bytes of the noise message for negotiation data, and the
handshake fails. -/
theorem not_alike_of_two : ∃ (start : Endpoint Pattern) (rx rx' : Net.Incoming) (r r' : Int × Endpoint Pattern),
    start.Fresh ∧ start.Granted ∧ start.env.sends = [] ∧ rx.Live ∧ rx'.Live ∧ rx.bytes = rx'.bytes ∧
    Ends pattern_xx (fun _ => True) (start.leaving rx) r ∧ Ends pattern_xx (fun _ => True) (start.leaving rx') r' ∧
    ¬ Alike r r' := by
  obtain ⟨r, hends, hok⟩ := ends_in_one
  obtain ⟨v, hstart, x, hpause, r', hend, herror⟩ :
      ∃ v, ((pattern_server [] false).leaving in_two).phase pattern_xx 8 = ok (.cont v) ∧
      ∃ x, v.phase pattern_xx 8 = ok (.done (NGX_AGAIN, x)) ∧
      ∃ r, (x.wake true false).phase pattern_xx 8 = ok (.done r) ∧ r.1 = NGX_ERROR :=
    ⟨_, rfl, _, rfl, _, rfl, rfl⟩
  have hends' : Ends pattern_xx (fun _ => True) ((pattern_server [] false).leaving in_two) r' := by
    refine ⟨⟨8, _, .resumed (.next .first trivial hstart) trivial hpause, hend⟩, fun hagain => ?_⟩
    rw [herror] at hagain
    cases hagain
  refine ⟨pattern_server [] false, in_one, in_two, r, r', fresh_create _ _ _ _ _ _ _ _, ⟨rfl, rfl, rfl⟩, rfl,
    ⟨rfl, by decide⟩, ⟨rfl, by decide⟩, by decide, hends.of_imp fun _ _ => trivial, hends', ?_⟩
  intro hsame
  have hresult := hsame.result
  rw [hok, herror] at hresult
  cases hresult

end Endpoint

end ngx_nsoc
