import NoiseSocket.Handler.Handshake.Phases

open Exec Exec.Result

namespace ngx_nsoc

variable {S : Type}

/-- A socket read that delivered only a part of negotiation data or of a noise
message, or end of file in its place. -/
def Obs.isCut : Obs → Bool
  | .recv (.neg_data len) _ n _ => decide (0 ≤ n ∧ n < len)
  | .recv (.msg_data len) _ n _ => decide (0 ≤ n ∧ n < len)
  | _ => false

/-- A stream that ends behind a first byte which an earlier call had saved. -/
theorem first_of_taken_closed {size : SizeField} {rx : Net.Incoming} {k : Nat}
    (h : (take_len size rx).1 = .closed (.known k)) : ∃ b0, size = .first b0 := by
  cases size with
  | first b0 => exact ⟨b0, rfl⟩
  | unset | known =>
    rcases rx with ⟨_ | ⟨⟨_, _ | _⟩ | _ | _, rest⟩, _ | _⟩
    all_goals first
      | (rcases rest with _ | ⟨_ | _ | _, _⟩ <;> simp [take_len, second_byte, both_bytes] at h)
      | simp [take_len, both_bytes] at h

namespace Endpoint

/-- The socket has cut a data part short at some point of the run. -/
def Cut (w : Endpoint S) : Prop := ∃ o ∈ w.trace, o.isCut = true

/-- A handshake timer is armed. -/
def Armed (w : Endpoint S) : Prop := w.c.read.timer_set = true ∨ w.c.write.timer_set = true

instance (w : Endpoint S) : Decidable w.Cut :=
  inferInstanceAs (Decidable (∃ o ∈ w.trace, o.isCut = true))

instance (w : Endpoint S) : Decidable w.Armed := inferInstanceAs (Decidable (_ ∨ _))

theorem Cut.of_append {w w' : Endpoint S} (obs : List Obs) (h : w.Cut)
    (htrace : w'.trace = obs ++ w.trace) : w'.Cut := by
  obtain ⟨o, ho, hcut⟩ := h
  exact ⟨o, by simp [htrace, ho], hcut⟩

theorem Cut.of_trace {w w' : Endpoint S} (h : w.Cut) (htrace : w'.trace = w.trace) : w'.Cut :=
  h.of_append [] htrace

theorem Cut.of_reads {w w' : Endpoint S} (h : w.Cut) (hreads : Reads w w') : w'.Cut := by
  obtain ⟨obs, htrace, -⟩ := hreads.trace
  exact h.of_append _ htrace

theorem Armed.congr {w w' : Endpoint S} (h : w.Armed)
    (hread : w'.c.read.timer_set = w.c.read.timer_set)
    (hwrite : w'.c.write.timer_set = w.c.write.timer_set) : w'.Armed := by
  simpa only [Armed, hread, hwrite] using h

/-- Unless a part was cut short, known end of file goes with an armed timer. -/
def Watched (w : Endpoint S) : Prop := w.Cut ∨ (w.c.read.eof = true → w.Armed)

/-- The same, also for a length of which the first byte was saved. -/
def FieldWatched (f : LenField) (w : Endpoint S) : Prop :=
  w.Cut ∨ ((w.c.read.eof = true → w.Armed) ∧ ∀ b0, w.nc.size f = .first b0 → w.Armed)

theorem FieldWatched.watched {f : LenField} {w : Endpoint S} (h : w.FieldWatched f) : w.Watched :=
  h.imp_right And.left

theorem Watched.log {w : Endpoint S} (h : w.Watched) (o : Obs) : (w.log o).Watched :=
  h.imp_left fun hcut => hcut.of_append [o] rfl

/-- A data part leaves a suspended connection with a timer. -/
theorem armed_of_read_part {part : Part} {size : Nat} {w : Endpoint S}
    (hpart : part = .neg_data size ∨ part = .msg_data size) (hw : w.Watched)
    (hn : (w.read_part part size).1 = NGX_AGAIN) :
    (w.read_part part size).2.Cut ∨ (w.read_part part size).2.Armed := by
  obtain ⟨hframe, hout⟩ := read_part_cases part size w
  have hcut : ∀ {room : Nat} (got : List UInt8), got.length < size →
      .recv part room got.length got ∈ (w.read_part part size).2.trace →
      (w.read_part part size).2.Cut := by
    intro room got hlt hlog
    refine ⟨_, hlog, ?_⟩
    rcases hpart with rfl | rfl <;> simp [Obs.isCut, hlt]
  cases hout with
  | empty hsize hr => simp [hr] at hn
  | failed hpos hfail => simp [hfail] at hn
  | again b hpos hb _ heof hrecv heof' hbuf hlast htimer => exact .inr (.inl htimer)
  | known_eof hpos _ heof heof' hlast htimer =>
    rcases hw with hw | hw
    · exact .inl (hw.of_reads hframe.reads)
    · exact .inr ((hw heof).congr htimer hframe.reads.write_timer)
  | closed b hpos hb _ heof hrecv hlast hlog => exact .inl (hcut [] hpos hlog)
  | short b got hb _ hpos hlt heof hrecv hlast hlog => exact .inl (hcut got hlt hlog)
  | whole b got hpos hb hlen => simp [hlen] at hn

/-- A data part that was received leaves the read event without end of file. -/
theorem eof_of_read_part {part : Part} {size : Nat} {w : Endpoint S} (hpos : 0 < size)
    (hn : 0 ≤ (w.read_part part size).1) : (w.read_part part size).2.c.read.eof = false := by
  cases (read_part_cases part size w).2 with
  | empty hsize hr => omega
  | failed _ hfail => simp [hfail] at hn
  | again _ _ _ hagain | known_eof _ hagain | closed _ _ _ hagain | short _ _ _ hagain =>
    simp [hagain] at hn
  | whole _ _ _ _ _ _ _ _ _ heof' => exact heof'

theorem watched_of_read_part {part : Part} {size : Nat} {w : Endpoint S} (hw : w.Watched)
    (hn : 0 ≤ (w.read_part part size).1) : (w.read_part part size).2.Watched := by
  rcases Nat.eq_zero_or_pos size with rfl | hpos
  · rwa [read_part_zero]
  · exact .inr fun heof => by simp [eof_of_read_part hpos hn] at heof

/-- A length reader does not touch the timers. -/
theorem LenResult.armed {f : LenField} {w v : Endpoint S} {taken : LenAnswer × Net.Incoming}
    (h : LenResult f w.Hooked v taken) (harmed : w.Armed) : v.Armed :=
  harmed.congr h.frame.read_timer h.frame.reads.write_timer

/-- A length that was received, or that end of file has completed, leaves the
connection watched. -/
theorem LenResult.watched {f : LenField} {w v : Endpoint S} {k : Nat}
    (h : LenResult f w.Hooked v (take_len (w.nc.size f) w.env.rx)) (hw : w.FieldWatched f)
    (hknown : (take_len (w.nc.size f) w.env.rx).1.size = .known k) : v.Watched := by
  rcases hw with hcut | ⟨heof, hfirst⟩
  · exact .inl (hcut.of_reads ((reads_setHandlers _).trans h.frame.reads))
  · right
    intro heof'
    rw [h.eof, Bool.or_eq_true] at heof'
    rcases heof' with heof' | heof'
    · exact h.armed (heof heof')
    · rcases htaken : (take_len (w.nc.size f) w.env.rx).1 with size | saved | saved | saved
      all_goals rw [htaken] at heof' hknown
      all_goals try (simp [LenAnswer.eof] at heof'; done)
      obtain rfl : saved = .known k := hknown
      obtain ⟨b0, hb0⟩ := first_of_taken_closed htaken
      exact h.armed (hfirst b0 hb0)

theorem armed_of_negSteps {true_len : Nat} {w : Endpoint S} {r : Int × Endpoint S}
    (h : NegSteps true_len w r) (hw : w.FieldWatched .neg_data) (hn : r.1 = NGX_AGAIN) :
    r.2.Cut ∨ r.2.Armed := by
  cases h with
  | known size hsize hr =>
    rw [hr] at hn ⊢
    exact armed_of_read_part (.inl rfl) hw.watched hn
  | again v saved hsize hlen htaken hr =>
    rcases v.read_again_cases with ⟨-, hcode⟩ | ⟨-, -, htimer⟩
    · simp [hr, hcode] at hn
    · rw [hr]
      exact .inr (.inl htimer)
  | error v saved hsize hlen htaken hr => simp [hr] at hn
  | mismatch v hsize hlen hcode hne hr => simp [hr] at hn
  | accepted v hsize hlen hcode hknown hr =>
    rw [hr] at hn ⊢
    exact armed_of_read_part (.inl rfl) ((hlen.watched hw hknown).log _) hn

theorem armed_of_msgSteps {w : Endpoint S} {r : Int × Endpoint S}
    (h : MsgSteps w r) (hw : w.FieldWatched .noise_msg) (hn : r.1 = NGX_AGAIN) :
    r.2.Cut ∨ r.2.Armed := by
  cases h with
  | known size hsize hr =>
    rw [hr] at hn ⊢
    exact armed_of_read_part (.inr rfl) hw.watched hn
  | again v saved hsize hlen htaken hr =>
    rcases v.read_again_cases with ⟨-, hcode⟩ | ⟨-, -, htimer⟩
    · simp [hr, hcode] at hn
    · rw [hr]
      exact .inr (.inl htimer)
  | error v saved hsize hlen htaken hr => simp [hr] at hn
  | accepted v size hsize hlen hcode hknown hr =>
    rw [hr] at hn ⊢
    exact armed_of_read_part (.inr rfl) (hlen.watched hw hknown) hn

theorem watched_of_negSteps {true_len : Nat} {w : Endpoint S} {r : Int × Endpoint S}
    (h : NegSteps true_len w r) (hw : w.FieldWatched .neg_data) (hn : 0 ≤ r.1) :
    r.2.Watched := by
  cases h with
  | known size hsize hr =>
    rw [hr] at hn ⊢
    exact watched_of_read_part hw.watched hn
  | again v saved hsize hlen htaken hr =>
    rcases v.read_again_cases with ⟨-, hcode⟩ | ⟨hcode, -⟩
    all_goals simp [hr, hcode] at hn
  | error v saved hsize hlen htaken hr => simp [hr] at hn
  | mismatch v hsize hlen hcode hne hr => simp [hr] at hn
  | accepted v hsize hlen hcode hknown hr =>
    rw [hr] at hn ⊢
    exact watched_of_read_part ((hlen.watched hw hknown).log _) hn

/-- A negotiation part without data leaves the timers as they are. -/
theorem timers_of_negSteps {w : Endpoint S} {r : Int × Endpoint S}
    (h : NegSteps 0 w r) (hn : 0 ≤ r.1) (hzero : r.2.nc.neg_data = .known 0) (harmed : w.Armed) :
    r.2.Armed := by
  cases h with
  | known size hsize hr =>
    have hkept := (read_part_cases (.neg_data size) size w).1.neg_data
    rw [← hr, hzero, hsize] at hkept
    cases hkept
    rw [hr, read_part_zero]
    exact harmed
  | again v saved hsize hlen htaken hr =>
    rcases v.read_again_cases with ⟨-, hcode⟩ | ⟨hcode, -⟩
    all_goals simp [hr, hcode] at hn
  | error v saved hsize hlen htaken hr => simp [hr] at hn
  | mismatch v hsize hlen hcode hne hr => simp [hr] at hn
  | accepted v hsize hlen hcode hknown hr =>
    rw [hr, read_part_zero]
    exact hlen.armed harmed

end Endpoint

end ngx_nsoc
