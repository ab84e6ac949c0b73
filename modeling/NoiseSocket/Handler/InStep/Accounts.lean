import NoiseSocket.Handler.InStep.Layout

open Exec Exec.Result

namespace ngx_nsoc

variable {S : Type}

section

variable {part : Part} {bytes : List UInt8} {obs trace : List Obs}

theorem Deliveries.received (h : Deliveries part bytes obs) (trace : List Obs) :
    received (obs ++ trace) = received trace ++ bytes := by
  induction h with
  | nil => exact (List.append_nil _).symm
  | recv _ ih =>
    rw [List.cons_append, received_cons, ih, List.append_assoc]
    rfl

theorem Deliveries.accepted (h : Deliveries part bytes obs) (trace : List Obs) :
    accepted (obs ++ trace) = accepted trace := by
  induction h with
  | nil => rfl
  | recv _ ih => exact (List.countP_cons_of_neg Bool.false_ne_true).trans ih

theorem Deliveries.checks (h : Deliveries part bytes obs) (trace : List Obs) :
    checks (obs ++ trace) = checks trace := by
  induction h with
  | nil => rfl
  | recv _ ih => exact ih

/-- Reads that take what their part is in the stream. -/
theorem Deliveries.inOrder (h : Deliveries part bytes obs) (htrace : InOrder trace)
    (hlayout : (Position.first.behind (ngx_nsoc.received trace)).layout bytes = bytes.map (part, ·)) :
    InOrder (obs ++ trace) := by
  induction h with
  | nil => exact htrace
  | @recv bytes got obs size n h ih =>
    rw [Position.layout_append, List.map_append] at hlayout
    obtain ⟨hbytes, hgot⟩ := List.append_inj hlayout (by
      rw [← List.length_map Prod.snd, Position.map_snd_layout, List.length_map])
    refine ⟨?_, ih hbytes⟩
    show (Position.first.behind (ngx_nsoc.received (obs ++ trace))).layout got = _
    rw [h.received, Position.behind_append]
    exact hgot

/-- Receiving and setting up noise-c get it no further. -/
theorem accepted_append (h : ∀ o ∈ obs, o.isRead ∨ o.isSetup) (trace : List Obs) :
    accepted (obs ++ trace) = accepted trace := by
  have hnone : obs.countP Obs.isAccepted = 0 := by
    rw [List.countP_eq_zero]
    intro o ho
    have hkind := h o ho
    cases o <;> simp_all [Obs.isRead, Obs.isSetup, Obs.isAccepted]
  rw [accepted, List.countP_append, hnone, Nat.zero_add, accepted]

theorem Endpoint.Reads.accepted {w v : Endpoint S} (h : Reads w v) :
    ngx_nsoc.accepted v.trace = ngx_nsoc.accepted w.trace := by
  obtain ⟨obs, htrace, hread⟩ := h.trace
  rw [htrace, accepted_append fun o ho => .inl (hread o ho)]

end

namespace Endpoint

/-- What the observations of an endpoint tell: all is in order, `k` messages have passed, the checks since the
last one, and the place in the stream of the peer. -/
structure Tells (w : Endpoint S) (k : Nat) (made : List (Nat × Option Nat)) (place : Position) : Prop where
  order : InOrder w.trace
  accepted : accepted w.trace = k
  checks : checks w.trace = made
  place : Position.first.behind (received w.trace) = place

section

variable {w v : Endpoint S} {k size : Nat} {made : List (Nat × Option Nat)} {place : Position} {f : LenField}

theorem Tells.of_trace (h : w.Tells k made place) (htrace : v.trace = w.trace) : v.Tells k made place := by
  refine ⟨?_, ?_, ?_, ?_⟩
  all_goals rw [htrace]
  · exact h.order
  · exact h.accepted
  · exact h.checks
  · exact h.place

/-- Bytes come in for what they are in the stream. -/
theorem Tells.took {part : Part} {place' : Position} (h : w.Tells k made place) (htook : Took part w v)
    (hplace : ∀ bytes, w.env.rx.bytes = bytes ++ v.env.rx.bytes →
      place.layout bytes = bytes.map (part, ·) ∧ place.behind bytes = place') : v.Tells k made place' := by
  obtain ⟨bytes, obs, hobs, htrace, hbytes⟩ := htook
  obtain ⟨hlayout, hbehind⟩ := hplace bytes hbytes
  refine ⟨?_, ?_, ?_, ?_⟩
  all_goals rw [htrace]
  · exact hobs.inOrder h.order (h.place ▸ hlayout)
  · rw [hobs.accepted, h.accepted]
  · rw [hobs.checks, h.checks]
  · rw [hobs.received, Position.behind_append, h.place, hbehind]

/-- A part of a length has come in. -/
theorem Tells.held (h : w.Tells k made (.len f (w.nc.size f).held)) (htook : Took f.part w v)
    (hheld : (v.nc.size f).held ++ v.env.rx.bytes = (w.nc.size f).held ++ w.env.rx.bytes) :
    v.Tells k made (.len f (v.nc.size f).held) := by
  refine h.took htook fun bytes hbytes => ?_
  rw [hbytes, ← List.append_assoc] at hheld
  have hall := List.append_cancel_right hheld
  rw [hall]
  exact Position.layout_held (hall ▸ (v.nc.size f).length_held)

/-- A length has come in. -/
theorem Tells.len (h : w.Tells k made (.len f (w.nc.size f).held)) (htook : TookLen f size w v) :
    v.Tells k made (.behind_len f size) := by
  obtain ⟨htook, b0, b1, rfl, hheld⟩ := htook
  refine h.took htook fun bytes hbytes => ?_
  rw [hbytes, ← List.append_assoc] at hheld
  exact Position.layout_len (w.nc.size f).length_held (List.append_cancel_right hheld)

/-- Data have come in, or a part of them. -/
theorem Tells.data {left : Nat} {got : List UInt8} (h : w.Tells k made (.data f size left)) (hpos : 0 < left)
    (htook : Took (f.data size) w v) (hgot : w.env.rx.bytes = got ++ v.env.rx.bytes) (hle : got.length ≤ left) :
    v.Tells k made (if got.length = left then .len f.other [] else .data f size (left - got.length)) := by
  refine h.took htook fun bytes hbytes => ?_
  obtain rfl : got = bytes := List.append_cancel_right (hgot.symm.trans hbytes)
  exact Position.layout_data hpos hle

/-- A length has been checked. -/
theorem Tells.check {true_len : Nat} {len : Option Nat} (h : w.Tells k [] place) (hlen : true_len = neg_size k)
    (htrace : v.trace = .negotiation true_len len :: w.trace) : v.Tells k [(true_len, len)] place := by
  refine ⟨?_, ?_, ?_, ?_⟩
  all_goals rw [htrace]
  · refine ⟨⟨?_, h.checks⟩, h.order⟩
    rw [h.accepted]
    exact hlen
  · exact (List.countP_cons_of_neg Bool.false_ne_true).trans h.accepted
  · exact congrArg ((true_len, len) :: ·) h.checks
  · rw [received_cons]
    exact (congrArg Position.first.behind (List.append_nil _)).trans h.place

/-- noise-c has made the message that was due. -/
theorem Tells.wrote (h : w.Tells k made place)
    (htrace : v.trace = .write_message (number k) NOISE_ERROR_NONE :: w.trace) : v.Tells (k + 1) [] place := by
  refine ⟨?_, ?_, ?_, ?_⟩
  all_goals rw [htrace]
  · exact ⟨by rw [Obs.InOrder, h.accepted], h.order⟩
  · exact (List.countP_cons_of_pos rfl).trans (congrArg (· + 1) h.accepted)
  · rfl
  · rw [received_cons]
    exact (congrArg Position.first.behind (List.append_nil _)).trans h.place

theorem Tells.inOrder_write (h : w.Tells k made place) {code : Nat}
    (htrace : v.trace = .write_message (number k) code :: w.trace) : InOrder v.trace := by
  rw [htrace]
  exact ⟨by rw [Obs.InOrder, h.accepted], h.order⟩

/-- noise-c has taken the message that was due. -/
theorem Tells.read {message : List UInt8} (h : w.Tells k [(neg_size k, some (neg_size k))] place)
    (htrace : v.trace = .read_message message NOISE_ERROR_NONE :: w.trace) : v.Tells (k + 1) [] place := by
  refine ⟨?_, ?_, ?_, ?_⟩
  all_goals rw [htrace]
  · exact ⟨by rw [Obs.InOrder, h.accepted, h.checks], h.order⟩
  · exact (List.countP_cons_of_pos rfl).trans (congrArg (· + 1) h.accepted)
  · rfl
  · rw [received_cons]
    exact (congrArg Position.first.behind (List.append_nil _)).trans h.place

theorem Tells.inOrder_read {message : List UInt8} {code : Nat}
    (h : w.Tells k [(neg_size k, some (neg_size k))] place)
    (htrace : v.trace = .read_message message code :: w.trace) : InOrder v.trace := by
  rw [htrace]
  exact ⟨by rw [Obs.InOrder, h.accepted, h.checks], h.order⟩

/-- Setting up noise-c tells nothing. -/
theorem Tells.setup (h : w.Tells k made place) (hframe : InitFrame w v) : v.Tells k made place := by
  obtain ⟨obs, htrace, hsetup⟩ := hframe.trace
  have hall : InOrder (obs ++ w.trace) ∧ ngx_nsoc.checks (obs ++ w.trace) = made ∧
      received (obs ++ w.trace) = received w.trace := by
    clear htrace
    induction obs with
    | nil => exact ⟨h.order, h.checks, rfl⟩
    | cons o obs ih =>
      obtain ⟨horder, hchecks, hreceived⟩ := ih fun o ho => hsetup o (List.mem_cons_of_mem _ ho)
      have hkind := hsetup o List.mem_cons_self
      cases o with
      | set_prologue | set_keypair_private | set_public_key =>
        exact ⟨⟨trivial, horder⟩, hchecks, (List.append_nil _).trans hreceived⟩
      | recv | negotiation | write_message | read_message => cases hkind
  refine ⟨?_, ?_, ?_, ?_⟩
  all_goals rw [htrace]
  · exact hall.1
  · rw [accepted_append fun o ho => .inr (hsetup o ho), h.accepted]
  · exact hall.2.1
  · rw [hall.2.2, h.place]

end

end Endpoint

end ngx_nsoc
