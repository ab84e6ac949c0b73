import NoiseSocket.Handler.Handshake.Delivered
import NoiseSocket.Handler.Handshake.Written

open Exec Exec.Result

namespace ngx_nsoc

variable {S : Type}

namespace Endpoint

/-! The readers have no undefined behaviour of their own. -/

theorem read_len_ne_fault (f : LenField) (fuel : Nat) (w : Endpoint S) : w.read_len f fuel ≠ fault := by
  have hbody : ∀ x : List UInt8 × Endpoint S, read_len_body f x ≠ fault := by
    rintro ⟨got, v⟩
    simp only [read_len_body]
    split_ifs <;> (try split) <;> intro h <;> cases h
  unfold read_len
  split <;> exact loop_ne_fault hbody _ _

theorem read_negotiation_ne_fault (fuel true_len : Nat) (w : Endpoint S) :
    w.read_negotiation fuel true_len ≠ fault := by
  refine loop_ne_fault ?_ _ _
  intro v
  rcases v.nc.neg_data.incomplete_or with hsize | ⟨size, hsize⟩
  · rw [read_negotiation_body_of_incomplete _ _ hsize]
    refine bind_ne_fault (read_len_ne_fault _ _ _) ?_
    intro r _
    split_ifs <;> nofun
  · rw [read_negotiation_body_of_known hsize]
    nofun

theorem read_noise_msg_ne_fault (fuel : Nat) (w : Endpoint S) : w.read_noise_msg fuel ≠ fault := by
  refine loop_ne_fault ?_ _ _
  intro v
  rcases v.nc.noise_msg.incomplete_or with hsize | ⟨size, hsize⟩
  · rw [read_noise_msg_body_of_incomplete _ hsize]
    refine bind_ne_fault (read_len_ne_fault _ _ _) ?_
    intro r _
    split_ifs <;> nofun
  · rw [read_noise_msg_body_of_known hsize]
    nofun

/-- The lengths of negotiation data that the readers are called with. -/
def NegKnown (w : Endpoint S) : Prop := ∀ k, w.nc.neg_data = .known k → k = 0 ∨ k = 6

/-- The buffer stands at its beginning. -/
def AtStart (w : Endpoint S) : Prop := ∀ b, w.nc.buf = some b → b.pos = 0

theorem incomplete_of_again {size saved : SizeField} {rx : Net.Incoming}
    (h : (take_len size rx).1 = .again saved) : saved.incomplete := by
  cases size with
  | first b0 =>
    rcases rx with ⟨_ | ⟨_ | _ | _, rest⟩, _ | _⟩ <;> simp [take_len, second_byte] at h <;>
      subst h <;> rfl
  | unset | known =>
    rcases rx with ⟨_ | ⟨⟨_, _ | _⟩ | _ | _, rest⟩, _ | _⟩
    all_goals first
      | (rcases rest with _ | ⟨_ | _ | _, _⟩ <;> simp [take_len, second_byte, both_bytes] at h <;>
          subst h <;> rfl)
      | (simp [take_len, both_bytes] at h <;> subst h <;> rfl)

theorem NegSteps.negKnown {true_len : Nat} {w : Endpoint S} {r : Int × Endpoint S}
    (h : NegSteps true_len w r) (htrue : true_len = 0 ∨ true_len = 6) (hw : w.NegKnown)
    (hn : r.1 ≠ NGX_ERROR) : r.2.NegKnown := by
  intro k hk
  cases h with
  | known size hsize hr =>
    rw [hr, (read_part_cases _ _ _).1.neg_data] at hk
    exact hw k hk
  | again v saved hsize hlen htaken hr =>
    have hsaved : v.nc.neg_data = saved := by
      have hv : v.nc.neg_data = (take_len w.nc.neg_data w.env.rx).1.size := hlen.size
      rw [hv, htaken]
      rfl
    have hinc := incomplete_of_again htaken
    rw [hr, (partFrame_read_again v).neg_data, hsaved] at hk
    rw [hk] at hinc
    cases hinc
  | error v saved hsize hlen htaken hr => exact absurd (congrArg Prod.fst hr) hn
  | mismatch v hsize hlen hcode hne hr => exact absurd (congrArg Prod.fst hr) hn
  | accepted v hsize hlen hcode hknown hr =>
    have hv : v.nc.neg_data = .known true_len := hlen.size.trans hknown
    rw [hr, (read_part_cases _ _ _).1.neg_data] at hk
    have hk : v.nc.neg_data = .known k := hk
    rw [hv] at hk
    cases hk
    exact htrue

theorem LenResult.atStart {f : LenField} {w v : Endpoint S} {taken : LenAnswer × Net.Incoming}
    (h : LenResult f w.Hooked v taken) (hw : w.AtStart) : v.AtStart := by
  intro b hb
  rw [h.frame.buf] at hb
  exact hw b hb

theorem NegSteps.atStart {true_len : Nat} {w : Endpoint S} {r : Int × Endpoint S}
    (h : NegSteps true_len w r) (hw : w.AtStart) : r.2.AtStart := by
  cases h with
  | known size hsize hr =>
    rw [hr]
    exact fun b hb => pos_read_part hw hb
  | again v saved hsize hlen htaken hr =>
    rw [hr]
    intro b hb
    rw [(read_again_rests v).1.buf] at hb
    exact hlen.atStart hw b hb
  | error v saved hsize hlen htaken hr =>
    rw [hr]
    exact hlen.atStart hw
  | mismatch v hsize hlen hcode hne hr =>
    rw [hr]
    exact fun b hb => hlen.atStart hw b hb
  | accepted v hsize hlen hcode hknown hr =>
    rw [hr]
    have hlog : (v.log (.negotiation true_len (some true_len))).AtStart :=
      fun b hb => hlen.atStart hw b hb
    exact fun b hb => pos_read_part hlog hb

/-- Negotiation data that has come in fills the buffer. -/
theorem NegSteps.filled {true_len : Nat} {w : Endpoint S} {r : Int × Endpoint S}
    (h : NegSteps true_len w r) (hn : 0 ≤ r.1) {k : Nat} (hk : r.2.nc.neg_data = .known k)
    (hpos : k ≠ 0) : ∃ b, r.2.nc.buf = some b ∧ k ≤ b.bytes.length := by
  have hpart : ∀ {v : Endpoint S} {size : Nat}, v.nc.neg_data = .known size →
      r = v.read_part (.neg_data size) size → ∃ b, r.2.nc.buf = some b ∧ k ≤ b.bytes.length := by
    intro v size hsize hr
    rw [hr, (read_part_cases _ _ _).1.neg_data, hsize] at hk
    cases hk
    rw [hr] at hn ⊢
    cases (read_part_cases (.neg_data k) k v).2 with
    | empty hzero => exact absurd hzero hpos
    | failed _ hfail => simp [hfail] at hn
    | again _ _ _ hagain | known_eof _ hagain | closed _ _ _ hagain | short _ _ _ hagain =>
      simp [hagain] at hn
    | whole b got _ _ _ hle _ _ _ _ _ hbuf =>
      refine ⟨_, hbuf, ?_⟩
      rw [List.length_append]
      omega
  cases h with
  | known size hsize hr => exact hpart hsize hr
  | again v saved hsize hlen htaken hr =>
    rcases v.read_again_cases with ⟨-, hcode⟩ | ⟨hcode, -⟩
    all_goals simp [hr, hcode] at hn
  | error v saved hsize hlen htaken hr => simp [hr] at hn
  | mismatch v hsize hlen hcode hne hr => simp [hr] at hn
  | accepted v hsize hlen hcode hknown hr =>
    exact hpart (v := v.log _) (hlen.size.trans hknown) hr

theorem FirstHdr.ofBytes_ne_none {bytes : List UInt8} (h : 6 ≤ bytes.length) :
    FirstHdr.ofBytes bytes ≠ none := by
  obtain _ | ⟨v0, _ | ⟨v1, _ | ⟨dh, _ | ⟨cipher, _ | ⟨hash, _ | ⟨pattern, rest⟩⟩⟩⟩⟩⟩ := bytes
  case cons.cons.cons.cons.cons.cons => nofun
  all_goals
    simp only [List.length_cons, List.length_nil] at h
    omega

/-- A first header that has come in is there to be read. -/
theorem header_ne_none {fuel : Nat} {w : Endpoint S} {r : Int × Endpoint S} (hw : w.NegKnown)
    (h : w.read_negotiation fuel NGX_NSOC_1MSG_NEG_DATA_SIZE = ok r) (hn : 0 < r.1) :
    (r.2.nc.buf.bind fun b => FirstHdr.ofBytes b.bytes) ≠ none := by
  have hsteps := read_negotiation_cases h
  have hne : r.1 ≠ NGX_ERROR := by
    simp only [NGX_ERROR]
    omega
  obtain ⟨size, hsize, hknown, -⟩ := header_received h hn
  obtain hzero | rfl := hsteps.negKnown (.inr rfl) hw hne size hknown
  · exact absurd hzero hsize
  · obtain ⟨b, hbuf, hlen⟩ := hsteps.filled (Int.le_of_lt hn) hknown hsize
    rw [hbuf]
    exact FirstHdr.ofBytes_ne_none hlen

/-- A pass of the loop over the negotiation part: once data has come in, the buffer holds it. -/
structure Gated (x : Option Nat × Endpoint S) : Prop where
  neg : x.2.NegKnown
  start : x.2.AtStart
  size : x.1 = none ∨ x.1 = some 0 ∧ ∃ k, x.2.nc.neg_data = .known k ∧
    (k ≠ 0 → ∃ b, x.2.nc.buf = some b ∧ k ≤ b.bytes.length)

theorem Gated.gate_read {fuel : Nat} {w : Endpoint S} (hneg : w.NegKnown) (hstart : w.AtStart) :
    (gate_read fuel 0 w).Safe (ControlFlow.Holds Gated fun _ => True) := by
  refine Safe.of_cases ?_ ?_
  · refine bind_ne_fault (read_negotiation_ne_fault _ _ _) ?_
    rintro ⟨n, v⟩ _
    dsimp only
    split_ifs <;> nofun
  · intro flow hflow
    obtain ⟨r, hsteps, ⟨-, rfl⟩ | ⟨hn, rfl⟩⟩ := gate_read_cases hflow
    · trivial
    have hne : r.1 ≠ NGX_ERROR := by
      simp only [NGX_ERROR]
      omega
    refine ⟨hsteps.negKnown (.inl rfl) hneg hne, hsteps.atStart hstart, .inr ⟨rfl, ?_⟩⟩
    have hknown : ∃ k, r.2.nc.neg_data = .known k := by
      rcases hsteps.known_of_nonneg hn with ⟨k, -, -, hk⟩ | ⟨-, hk⟩
      · exact ⟨k, hk⟩
      · exact ⟨0, hk⟩
    obtain ⟨k, hk⟩ := hknown
    exact ⟨k, hk, fun hpos => hsteps.filled hn hk hpos⟩

/-- The status is read from a buffer that holds it. -/
theorem Gated.body {fuel : Nat} {x : Option Nat × Endpoint S} (hx : Gated x) :
    (read_message_body fuel x).Safe (ControlFlow.Holds Gated fun _ => True) := by
  obtain ⟨size, w⟩ := x
  obtain ⟨hneg, hstart, hsize⟩ := hx
  dsimp only at hneg hstart hsize
  by_cases h1 : w.nc.msg_num = NGX_NSOC_1MSG
  · rw [read_message_body_first _ h1]
    trivial
  by_cases hnum : w.nc.msg_num = NGX_NSOC_2MSG_OK ∨ w.nc.msg_num = NGX_NSOC_3MSG
  swap
  · rw [read_message_body_unknown _ ⟨h1, fun h2 => hnum (.inl h2), fun h3 => hnum (.inr h3)⟩]
    trivial
  obtain rfl | ⟨rfl, k, hk, hfilled⟩ := hsize
  · rw [read_message_body_read hnum]
    exact gate_read hneg hstart
  obtain h2 | h3 := hnum
  swap
  · rw [read_message_body_third h3]
    trivial
  by_cases hzero : k = 0
  · rw [read_message_body_second_ok h2 (hzero ▸ hk)]
    trivial
  obtain ⟨b, hbuf, hlen⟩ := hfilled hzero
  have hsix : k = 6 := (hneg k hk).resolve_left hzero
  obtain ⟨status, hstatus⟩ : ∃ status, (b.bytes.drop b.pos)[2]? = some status := by
    rw [hstart b hbuf, List.drop_zero]
    exact ⟨_, List.getElem?_eq_getElem (by omega)⟩
  simp only [read_message_body, h2, hk, SizeField.recv_size, hbuf, Option.bind_some, hstatus]
  rw [if_neg (by decide), if_pos trivial, if_neg (by simpa using hzero)]
  split_ifs
  · trivial
  · exact gate_read hneg hstart

/-- The loop over the negotiation part has no undefined behaviour. -/
theorem read_message_gate_safe {w : Endpoint S} (hneg : w.NegKnown) (hstart : w.AtStart)
    (n fuel : Nat) : (loop (read_message_body fuel) n (none, w)).Safe (GateOutcome w) := by
  refine Safe.of_cases ?_ fun e he => read_message_gate_cases he
  exact (loop_safe Gated (fun _ => True) (fun _ hx => hx.body) ⟨hneg, hstart, .inl rfl⟩).ne_fault

end Endpoint

end ngx_nsoc
