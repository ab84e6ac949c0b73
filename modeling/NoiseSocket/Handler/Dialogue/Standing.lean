import NoiseSocket.Handler.Dialogue

open Exec Exec.Result

namespace ngx_nsoc

variable {S : Type}

theorem SizeField.length_held (size : SizeField) : size.held.length ≤ 1 := by
  cases size <;> simp [held]

theorem calls_append {obs : List Obs} (h : ∀ o ∈ obs, o.isRead) (trace : List Obs) :
    calls (obs ++ trace) = calls trace := by
  have hnone : calls obs = [] := by
    simpa [calls, List.filter_eq_nil_iff] using h
  rw [calls, List.filter_append, ← calls, hnone, List.nil_append, calls]

namespace Endpoint

section

variable {w v : Endpoint S} {r : Int × Endpoint S} {left : List UInt8}

/-- The dialogue as it shows outside: what noise-c was given and has become, and what was sent. -/
structure Shows (w : Endpoint S) (d : Dialogue S) : Prop where
  noise : w.noise = d.noise
  prologue : w.prologue = d.prologue
  tx : w.env.tx = d.tx
  handed : calls w.trace = d.handed

theorem shows_dialogue (w : Endpoint S) (left : List UInt8) : w.Shows (w.dialogue left) :=
  ⟨rfl, rfl, rfl, rfl⟩

theorem Reads.calls (h : Reads w v) : calls v.trace = calls w.trace := by
  obtain ⟨obs, htrace, hread⟩ := h.trace
  rw [htrace, calls_append hread]

theorem Reads.noise_ctx (h : Reads w v) : v.nc.noise_ctx = w.nc.noise_ctx := by
  simpa [NoiseConnection.settled] using congrArg NoiseConnection.noise_ctx h.settled

/-- Receiving changes nothing of a dialogue but the message that is due. -/
theorem Reads.dialogue (h : Reads w v) (left : List UInt8) :
    v.dialogue left = { w.dialogue left with msg_num := v.nc.msg_num } := by
  simp only [Endpoint.dialogue, h.handshake_phase, h.noise_role, h.noise_ctx, h.noise, h.prologue, h.mem, h.tx,
    h.calls]

theorem Reads.shows (h : Reads w v) (left : List UInt8) : v.Shows (w.dialogue left) :=
  ⟨h.noise, h.prologue, h.tx, h.calls⟩

/-- The environment refuses nothing, takes every message whole, and the stream neither ends nor fails. -/
structure Steady (w : Endpoint S) : Prop where
  granted : w.Granted
  sends : w.env.sends = []
  live : w.env.rx.Live

theorem Steady.of_reads (hw : w.Steady) (h : Reads w v) (heof : v.c.read.eof = false)
    (hlive : v.env.rx.Live) : v.Steady :=
  ⟨⟨h.events hw.granted.events, h.allocs hw.granted.allocs, heof⟩, h.sends.trans hw.sends, hlive⟩

/-- The environment is all that matters. -/
theorem Steady.congr (hw : w.Steady) (henv : v.env = w.env) (heof : v.c.read.eof = w.c.read.eof) : v.Steady := by
  refine ⟨⟨?_, ?_, heof.trans hw.granted.eof⟩, ?_, ?_⟩
  all_goals rw [henv]
  · exact hw.granted.events
  · exact hw.granted.allocs
  · exact hw.sends
  · exact hw.live

theorem not_eventRefused (h : w.env.events = []) : ¬ w.EventRefused := by
  rw [EventRefused, h]
  exact Bool.noConfusion

/-- A length has been taken from the stream. -/
theorem Steady.taken {f : LenField} {taken : LenAnswer × Net.Incoming} (hw : w.Steady)
    (hlen : LenResult f w.Hooked v taken) (heof : taken.1.eof = false) (hlive : taken.2.Live) : v.Steady := by
  refine hw.of_reads hlen.fieldFrame.reads ?_ ?_
  · rw [hlen.eof, heof, Bool.or_false]
    exact hw.granted.eof
  · rw [hlen.rx]
    exact hlive

/-- Where the environment is steady, a read that would block is only suspended. -/
theorem Steady.read_again (hw : w.Steady) :
    w.read_again.1 = NGX_AGAIN ∧ Suspends w w.read_again.2 ∧ w.read_again.2.Steady := by
  rcases w.read_again_cases with ⟨hrefused, -⟩ | ⟨hcode, hsus, -⟩
  · exact absurd hrefused (not_eventRefused hw.granted.events)
  · refine ⟨hcode, hsus, hw.of_reads w.reads_read_again ?_ ?_⟩
    · rw [hsus.eof]
      exact hw.granted.eof
    · rw [hsus.rx]
      exact hw.live

/-- A length has been taken from the stream. -/
def TookLen (f : LenField) (size : Nat) (w v : Endpoint S) : Prop :=
  Took f.part w v ∧ ∃ b0 b1, be16 b0 b1 = size ∧
    (w.nc.size f).held ++ w.env.rx.bytes = b0 :: b1 :: v.env.rx.bytes

/-- The negotiation part of a message, from its length on: the length waits, or is another one, or is
there. -/
inductive NegRead (true_len : Nat) (w : Endpoint S) (r : Int × Endpoint S) : Prop where
  | waits (hn : r.1 = NGX_AGAIN) (hv : r.2.Steady) (hsize : r.2.nc.neg_data.incomplete)
      (hheld : r.2.nc.neg_data.held ++ r.2.env.rx.bytes = w.nc.neg_data.held ++ w.env.rx.bytes)
      (hlast : r.2.nc.last = NOISE_ACTION_READ_MESSAGE) (hbuf : r.2.nc.buf = w.nc.buf)
      (htook : Took .neg_len w r.2)
  | refused (b0 b1 : UInt8) (rest : List UInt8) (hn : r.1 = NGX_ERROR)
      (hbytes : w.nc.neg_data.held ++ w.env.rx.bytes = b0 :: b1 :: rest) (hne : be16 b0 b1 ≠ true_len)
      (u : Endpoint S) (htook : TookLen .neg_data (be16 b0 b1) w u)
      (htrace : r.2.trace = .negotiation true_len (some (be16 b0 b1)) :: u.trace)
  | got (v : Endpoint S) (b0 b1 : UInt8)
      (hbytes : w.nc.neg_data.held ++ w.env.rx.bytes = b0 :: b1 :: v.env.rx.bytes)
      (heq : be16 b0 b1 = true_len) (hv : v.Steady) (hframe : FieldFrame .neg_data w v)
      (hneg : v.nc.neg_data = .known true_len) (hbuf : v.nc.buf = w.nc.buf)
      (htaken : take_len w.nc.neg_data w.env.rx = (.got true_len, v.env.rx))
      (hr : r = v.read_part (.neg_data true_len) true_len)
      (u : Endpoint S) (htook : TookLen .neg_data true_len w u)
      (htrace : v.trace = .negotiation true_len (some true_len) :: u.trace) (hrx : v.env.rx = u.env.rx)

theorem NegSteps.negRead {true_len : Nat} (h : NegSteps true_len w r) (hw : w.Steady)
    (hneg : w.nc.neg_data.incomplete) : NegRead true_len w r := by
  cases h with
  | known size hsize =>
    rw [hsize] at hneg
    cases hneg
  | again v saved hsize hlen htaken hr =>
    obtain ⟨b0, b1, rx', heq, -⟩ | ⟨saved', rx', heq, hinc, hlive, hheld, -⟩ := take_len_live hneg hw.live
    · rw [heq] at htaken
      cases htaken
    rw [heq] at hlen
    have hv := hw.taken hlen rfl hlive
    obtain ⟨hcode, hsus, hsteady⟩ := hv.read_again
    have hsame : v.read_again.2.nc.neg_data = saved' := v.partFrame_read_again.neg_data.trans hlen.size
    subst hr
    refine .waits hcode hsteady ?_ ?_ hsus.last (hsus.buf.trans hlen.frame.buf) ?_
    · rw [hsame]
      exact hinc
    · rw [hsame, hsus.rx, hlen.rx]
      exact hheld
    · exact hlen.frame.took.trans (took_nothing hsus.trace hsus.rx)
  | error v saved hsize hlen htaken hr =>
    obtain ⟨b0, b1, rx', heq, -⟩ | ⟨saved', rx', heq, -⟩ := take_len_live hneg hw.live
    all_goals
      rw [heq] at htaken
      cases htaken
  | mismatch v hsize hlen hcode hne hr =>
    obtain ⟨b0, b1, rx', heq, hlive, hbytes, -⟩ | ⟨saved', rx', heq, -⟩ := take_len_live hneg hw.live
    · rw [heq] at hne hlen
      subst hr
      have hrx : v.env.rx = rx' := hlen.rx
      have hsize : v.nc.neg_data = .known (be16 b0 b1) := hlen.size
      refine .refused b0 b1 rx'.bytes rfl hbytes ?_ v ⟨hlen.frame.took, b0, b1, rfl, hrx ▸ hbytes⟩ ?_
      · rintro rfl
        exact hne rfl
      · rw [hsize]
        rfl
    · rw [heq] at hcode
      cases hcode
  | accepted v hsize hlen hcode hknown hr =>
    obtain ⟨b0, b1, rx', heq, hlive, hbytes, -⟩ | ⟨saved', rx', heq, -⟩ := take_len_live hneg hw.live
    · rw [heq] at hlen hknown
      obtain rfl : be16 b0 b1 = true_len := by simpa [LenAnswer.size] using hknown
      have hrx : v.env.rx = rx' := hlen.rx
      refine .got (v.log (.negotiation (be16 b0 b1) (some (be16 b0 b1)))) b0 b1 ?_ rfl ?_ ?_ hlen.size
        hlen.frame.buf ?_ hr v ⟨hlen.frame.took, b0, b1, rfl, hrx ▸ hbytes⟩ rfl rfl
      · rw [hbytes, ← hrx]
        rfl
      · exact (hw.taken hlen rfl hlive).congr rfl rfl
      · exact hlen.fieldFrame.trans ⟨v.reads_log rfl, rfl, fun _ _ => rfl⟩
      · rw [heq, ← hrx]
        rfl
    · rw [heq] at hcode
      cases hcode

/-- A buffer for a part of `size` bytes, of which it holds some. -/
def Holds (w : Endpoint S) (held : List UInt8) (size : Nat) : Prop :=
  w.nc.buf = none ∧ held = [] ∨ w.nc.buf = some ⟨held, 0, size⟩

/-- A part of `size` bytes into a buffer that holds some of them: all of it by one read, or nothing more yet, or
less. -/
inductive PartRead (held : List UInt8) (size : Nat) (w : Endpoint S) (r : Int × Endpoint S) : Prop where
  | whole (got : List UInt8) (hn : r.1 = got.length) (hsize : got.length = size)
      (hrecv : w.env.rx.recv size = (.data got, r.2.env.rx)) (hbytes : w.env.rx.bytes = got ++ r.2.env.rx.bytes)
      (hv : r.2.Steady) (hbuf : r.2.nc.buf = some ⟨got, 0, size⟩) (hheld : held = [])
  | waits (hn : r.1 = NGX_AGAIN) (hrecv : w.env.rx.recv (size - held.length) = (.again, r.2.env.rx))
      (hbytes : r.2.env.rx.bytes = w.env.rx.bytes)
      (hv : r.2.Steady) (hbuf : r.2.nc.buf = some ⟨held, 0, size⟩)
  | short (got : List UInt8) (hn : r.1 = NGX_AGAIN) (hlt : got.length < size)
      (hrecv : w.env.rx.recv (size - held.length) = (.data got, r.2.env.rx))
      (hbytes : w.env.rx.bytes = got ++ r.2.env.rx.bytes) (hv : r.2.Steady)
      (hbuf : r.2.nc.buf = some ⟨held ++ got, 0, size⟩) (hle : got.length ≤ size - held.length)

theorem Steady.read_part {size : Nat} {held : List UInt8} (hw : w.Steady) (part : Part)
    (hbuf : w.Holds held size) (hlt : held.length < size) : PartRead held size w (w.read_part part size) := by
  obtain ⟨hframe, hout⟩ := read_part_cases part size w
  have hthe : ∀ {b}, w.Target size b → b = ⟨held, 0, size⟩ := by
    rintro b (hb | ⟨hnone, -, hb⟩)
    · rcases hbuf with ⟨hnone, -⟩ | hsome
      · cases hnone.symm.trans hb
      · exact Option.some.inj (hb.symm.trans hsome)
    · rcases hbuf with ⟨-, rfl⟩ | hsome
      · exact hb
      · cases hnone.symm.trans hsome
  have hroom : Buf.room ⟨held, 0, size⟩ = size - held.length := rfl
  have hpos : 0 < size - held.length := Nat.sub_pos_of_lt hlt
  cases hout with
  | empty hsize _ => omega
  | failed _ _ why _ =>
    cases why with
    | no_buf _ halloc =>
      rw [hw.granted.allocs] at halloc
      cases halloc
    | full b hb hfull =>
      obtain rfl := hthe hb
      omega
    | socket b hb hrecv =>
      obtain rfl := hthe hb
      rw [hroom] at hrecv
      rcases hw.live.recv hpos with ⟨got, rx, heq, -⟩ | ⟨rx, heq, -⟩
      all_goals
        rw [heq] at hrecv
        cases hrecv
    | event hrefused => exact absurd hrefused (not_eventRefused hw.granted.events)
  | again b _ hb hn heof hrecv heof' hkept hlast _ =>
    obtain rfl := hthe hb
    rw [hroom] at hrecv
    rcases hw.live.recv hpos with ⟨got, rx, heq, -⟩ | ⟨rx, heq, hlive, hbytes, -⟩
    · cases heq.symm.trans hrecv
    · cases heq.symm.trans hrecv
      exact .waits hn heq hbytes (hw.of_reads hframe.reads heof' hlive) hkept
  | known_eof _ _ heof =>
    rw [hw.granted.eof] at heof
    cases heof
  | closed b _ hb _ _ hrecv =>
    obtain rfl := hthe hb
    rw [hroom] at hrecv
    rcases hw.live.recv hpos with ⟨got, rx, heq, -⟩ | ⟨rx, heq, -⟩
    all_goals cases heq.symm.trans hrecv
  | short b got hb hn hgot hlt heof hrecv hlast hlog heof' hkept =>
    obtain rfl := hthe hb
    rw [hroom] at hrecv
    rcases hw.live.recv hpos with ⟨got', rx, heq, hlive, hbytes, -, -, hle⟩ | ⟨rx, heq, -⟩
    · cases heq.symm.trans hrecv
      exact .short got hn hlt heq hbytes (hw.of_reads hframe.reads heof' hlive) hkept hle
    · cases heq.symm.trans hrecv
  | whole b got _ hb hn hsize hle heof hrecv heof' hlast hkept hallocs =>
    obtain rfl := hthe hb
    rw [hroom] at hrecv hle
    rcases hw.live.recv hpos with ⟨got', rx, heq, hlive, hbytes, -⟩ | ⟨rx, heq, -⟩
    · cases heq.symm.trans hrecv
      -- a buffer that is not empty has no room for all of the part
      obtain rfl := List.eq_nil_of_length_eq_zero (show held.length = 0 by omega)
      exact .whole got hn (by simp at hle; omega) heq hbytes (hw.of_reads hframe.reads heof' hlive) hkept rfl
    · cases heq.symm.trans hrecv

end

/-- The length and all of a noise message come in by reads that do not wait. -/
def ComesWhole (size : SizeField) (rx : Net.Incoming) : Prop :=
  ∃ len rest got rest', take_len size rx = (.got len, rest) ∧ rest.recv len = (.data got, rest') ∧ got.length = len

/-- The same as a function. -/
def comes_whole (size : SizeField) (rx : Net.Incoming) : Bool :=
  match take_len size rx with
  | (.got len, rest) =>
    match rest.recv len with
    | (.data got, _) => got.length = len
    | _ => false
  | _ => false

theorem comes_whole_iff {size : SizeField} {rx : Net.Incoming} :
    comes_whole size rx = true ↔ ComesWhole size rx := by
  unfold comes_whole ComesWhole
  constructor
  · intro h
    split at h
    · rename_i len rest hlen
      split at h
      · rename_i got rest' hrecv
        exact ⟨len, rest, got, rest', hlen, hrecv, by simpa using h⟩
      · cases h
    · cases h
  · rintro ⟨len, rest, got, rest', hlen, hrecv, hsize⟩
    simp [hlen, hrecv, hsize]

instance (size : SizeField) (rx : Net.Incoming) : Decidable (ComesWhole size rx) :=
  decidable_of_iff _ comes_whole_iff

/-- Where the header of the first message is due, all of it comes in by one read, or nothing does. -/
def HeaderWhole (size : SizeField) (rx : Net.Incoming) : Prop :=
  ∀ rest, noise_len size rx = some (NGX_NSOC_1MSG_NEG_DATA_SIZE, rest) → ∀ got rest',
    rest.recv NGX_NSOC_1MSG_NEG_DATA_SIZE = (.data got, rest') → got.length = NGX_NSOC_1MSG_NEG_DATA_SIZE

/-- The same as a function. -/
def header_whole (size : SizeField) (rx : Net.Incoming) : Bool :=
  match noise_len size rx with
  | some (6, rest) =>
    match rest.recv NGX_NSOC_1MSG_NEG_DATA_SIZE with
    | (.data got, _) => got.length = NGX_NSOC_1MSG_NEG_DATA_SIZE
    | _ => true
  | _ => true

theorem header_whole_iff {size : SizeField} {rx : Net.Incoming} :
    header_whole size rx = true ↔ HeaderWhole size rx := by
  unfold header_whole
  constructor
  · intro h rest hlen got rest' hrecv
    simp only [hlen, hrecv] at h
    simpa using h
  · intro h
    split
    · rename_i rest hlen
      split
      · rename_i got rest' hrecv
        simpa using h rest hlen got rest' hrecv
      · rfl
    · rfl

instance (size : SizeField) (rx : Net.Incoming) : Decidable (HeaderWhole size rx) :=
  decidable_of_iff _ header_whole_iff

section

variable {N : NoiseC S} {w v : Endpoint S} {q r : Int × Endpoint S} {left : List UInt8}

/-- The noise part of a message: all of it comes in, or it is empty, or a read of it has to wait. -/
inductive NoiseRead (w : Endpoint S) (q : Int × Endpoint S) : Prop where
  | message (message : List UInt8) (hn : 0 ≤ q.1) (hbuf : q.2.nc.buf = some ⟨message, 0, message.length⟩)
      (hsize : q.2.nc.noise_msg = .known message.length) (hne : message ≠ [])
      (hpart : Dialogue.noise_part w.env.rx.bytes = some (message, q.2.env.rx.bytes)) (hv : q.2.Steady)
      (hwhole : ComesWhole w.nc.noise_msg w.env.rx) (u : Endpoint S) (hlen : TookLen .noise_msg message.length w u)
      (htook : Took (.msg_data message.length) u q.2) (hbytes : u.env.rx.bytes = message ++ q.2.env.rx.bytes)
  | empty (hbuf : q.2.nc.buf = none) (hn : 0 ≤ q.1)
      (hpart : Dialogue.noise_part w.env.rx.bytes = some ([], q.2.env.rx.bytes))
  | broken (hn : q.1 = NGX_AGAIN) (hpart : q.2.env.rx.bytes = [] → Dialogue.noise_part w.env.rx.bytes = none)
      (hbroken : ¬ ComesWhole w.nc.noise_msg w.env.rx)

theorem noise_part_of_short {left : List UInt8} (h : left.length ≤ 1) : Dialogue.noise_part left = none := by
  obtain _ | ⟨b0, _ | ⟨b1, rest⟩⟩ := left
  · rfl
  · rfl
  · simp at h

theorem MsgSteps.noiseRead (h : MsgSteps w q) (hw : w.Steady) (hunset : w.nc.noise_msg = .unset)
    (hbuf : w.nc.buf = none) : NoiseRead w q := by
  cases h with
  | known size hsize =>
    rw [hunset] at hsize
    cases hsize
  | again v saved hsize hlen htaken hr =>
    obtain ⟨b0, b1, rx', heq, -⟩ | ⟨saved', rx', heq, hinc, hlive, hheld, -⟩ := take_len_live hsize hw.live
    · rw [heq] at htaken
      cases htaken
    rw [heq] at hlen
    obtain ⟨hcode, hsus, -⟩ := (hw.taken hlen rfl hlive).read_again
    subst hr
    refine .broken hcode ?_ ?_
    · intro hnil
      rw [hsus.rx, hlen.rx] at hnil
      have hnil : rx'.bytes = [] := hnil
      rw [hnil, List.append_nil, hunset] at hheld
      have hheld : saved'.held = w.env.rx.bytes := hheld
      exact noise_part_of_short (hheld ▸ saved'.length_held)
    · rintro ⟨len, rest, got, rest', hgot, -⟩
      cases heq.symm.trans hgot
  | error v saved hsize hlen htaken hr =>
    obtain ⟨b0, b1, rx', heq, -⟩ | ⟨saved', rx', heq, -⟩ := take_len_live hsize hw.live
    all_goals
      rw [heq] at htaken
      cases htaken
  | accepted v size hsize hlen hcode hknown hr =>
    obtain ⟨b0, b1, rx', heq, hlive, hbytes, -⟩ | ⟨saved', rx', heq, -⟩ := take_len_live hsize hw.live
    swap
    · rw [heq] at hcode
      cases hcode
    rw [heq] at hlen hknown
    obtain rfl : be16 b0 b1 = size := by simpa [LenAnswer.size] using hknown
    have hv := hw.taken hlen rfl hlive
    have hrx : v.env.rx = rx' := hlen.rx
    have hvbuf : v.nc.buf = none := hlen.frame.buf.trans hbuf
    have hbytes : w.env.rx.bytes = b0 :: b1 :: v.env.rx.bytes := by
      rw [hunset] at hbytes
      rw [hrx]
      exact hbytes
    subst hr
    rcases Nat.eq_zero_or_pos (be16 b0 b1) with hzero | hpos
    · rw [hzero, read_part_zero]
      refine .empty hvbuf le_rfl ?_
      rw [hbytes]
      simp [Dialogue.noise_part, hzero]
    have hframe := (read_part_cases (.msg_data (be16 b0 b1)) (be16 b0 b1) v).1
    have hknown : (v.read_part (.msg_data (be16 b0 b1)) (be16 b0 b1)).2.nc.noise_msg = .known (be16 b0 b1) :=
      hframe.noise_msg.trans hlen.size
    cases hv.read_part (.msg_data (be16 b0 b1)) (.inl ⟨hvbuf, rfl⟩) hpos with
    | whole got hn hsize hrecv hgot hv' hbuf' =>
      refine .message got (by omega) (by rw [hbuf', hsize]) (by rw [hknown, hsize]) ?_ ?_ hv'
        ⟨_, _, _, _, heq, hrx ▸ hrecv, hsize⟩ v ?_ ?_ hgot
      · rintro rfl
        simp at hsize
        omega
      · rw [hbytes, hgot]
        simp [Dialogue.noise_part, ← hsize]
      · refine ⟨hlen.frame.took, b0, b1, hsize.symm, ?_⟩
        have hheld : (w.nc.size .noise_msg).held = [] := by
          rw [NoiseConnection.size, hunset]
          rfl
        rw [hheld]
        exact hbytes
      · rw [hsize]
        exact v.took_read_part _ _
    | waits hn hrecv hrest hv' hbuf' =>
      refine .broken hn ?_ ?_
      · intro hnil
        rw [hnil] at hrest
        rw [hbytes, ← hrest]
        simp [Dialogue.noise_part]
        omega
      · rintro ⟨len, rest, got, rest', htake, hgot, -⟩
        cases heq.symm.trans htake
        rw [← hrx] at hgot
        cases hrecv.symm.trans hgot
    | short got hn hlt hrecv hgot =>
      refine .broken hn ?_ ?_
      · intro hnil
        rw [hnil, List.append_nil] at hgot
        rw [hbytes, hgot]
        simp [Dialogue.noise_part]
        omega
      · rintro ⟨len, rest, got', rest', htake, hgot', hlen'⟩
        cases heq.symm.trans htake
        rw [← hrx] at hgot'
        cases hrecv.symm.trans hgot'
        omega

/-- The three messages of a handshake. -/
def IsMessage (msg_num : Nat) : Prop :=
  msg_num = NGX_NSOC_1MSG ∨ msg_num = NGX_NSOC_2MSG_OK ∨ msg_num = NGX_NSOC_3MSG

/-- A message is to be received, of which at most a byte of the negotiation length has come in. -/
structure AtMessage (w : Endpoint S) (left : List UInt8) : Prop where
  steady : w.Steady
  buf : w.nc.buf = none
  unset : w.nc.noise_msg = .unset
  num : IsMessage w.nc.msg_num
  first : w.nc.msg_num = NGX_NSOC_1MSG → w.nc.neg_data.held = []
  later : w.nc.msg_num ≠ NGX_NSOC_1MSG → w.nc.neg_data.incomplete
  left : left = w.nc.neg_data.held ++ w.env.rx.bytes

/-- The length of an empty negotiation part has been read and checked. -/
def Checked (w v : Endpoint S) (size : Nat) : Prop :=
  w.nc.msg_num ≠ NGX_NSOC_1MSG ∧ ∃ u, TookLen .neg_data size w u ∧
    v.trace = .negotiation 0 (some size) :: u.trace

/-- The negotiation part of a message: it has passed, or is refused, or its length waits. -/
inductive NegGate (w : Endpoint S) (left : List UInt8) : ReadExit S → Prop where
  | passed {v : Endpoint S} (hpart : Dialogue.negotiation_part w.nc.msg_num left = .behind v.env.rx.bytes)
      (hreads : Reads w v) (hv : v.Steady) (hunset : v.nc.noise_msg = .unset)
      (hnum : v.nc.msg_num = next_num w.nc.msg_num)
      (hchecked : w.nc.msg_num = NGX_NSOC_1MSG ∧ v.trace = w.trace ∨ w.Checked v 0) :
      NegGate w left (.leave NGX_OK v)
  | refused {v : Endpoint S} (hpart : Dialogue.negotiation_part w.nc.msg_num left = .refused)
      (hreads : Reads w v) (hchecked : ∃ size, w.Checked v size) : NegGate w left (.leave NGX_ERROR v)
  | waits {v : Endpoint S} (hpart : v.env.rx.bytes = [] → Dialogue.negotiation_part w.nc.msg_num left = .short)
      (hreads : Reads w v) (hv : (v.setBuf none).AtMessage left) (hnum : v.nc.msg_num = w.nc.msg_num)
      (hlater : v.nc.msg_num ≠ NGX_NSOC_1MSG) (hlast : v.nc.last = NOISE_ACTION_READ_MESSAGE)
      (htook : Took .neg_len w v) : NegGate w left (.leave NGX_AGAIN v)

theorem negotiation_part_of_short {msg_num : Nat} {left : List UInt8}
    (hnum : msg_num = NGX_NSOC_2MSG_OK ∨ msg_num = NGX_NSOC_3MSG) (h : left.length ≤ 1) :
    Dialogue.negotiation_part msg_num left = .short := by
  have hfirst : msg_num ≠ NGX_NSOC_1MSG := by
    rcases hnum with rfl | rfl <;> decide
  unfold Dialogue.negotiation_part
  rw [if_neg hfirst, if_pos hnum]
  obtain _ | ⟨b0, _ | ⟨b1, rest⟩⟩ := left
  · rfl
  · rfl
  · simp at h

theorem negotiation_part_of_bytes {msg_num : Nat} (b0 b1 : UInt8) (rest : List UInt8)
    (hnum : msg_num = NGX_NSOC_2MSG_OK ∨ msg_num = NGX_NSOC_3MSG) :
    Dialogue.negotiation_part msg_num (b0 :: b1 :: rest) = if be16 b0 b1 = 0 then .behind rest else .refused := by
  have hfirst : msg_num ≠ NGX_NSOC_1MSG := by
    rcases hnum with rfl | rfl <;> decide
  unfold Dialogue.negotiation_part
  rw [if_neg hfirst, if_pos hnum]

/-- The negotiation part of the second or the third message. -/
theorem AtMessage.stopped (hw : w.AtMessage left)
    (hnum : w.nc.msg_num = NGX_NSOC_2MSG_OK ∨ w.nc.msg_num = NGX_NSOC_3MSG) (hsteps : NegSteps 0 w r)
    (hneg : r.1 < 0) : NegGate w left (.leave r.1 r.2) := by
  have hlater : w.nc.msg_num ≠ NGX_NSOC_1MSG := by
    rcases hnum with hnum | hnum <;> rw [hnum] <;> decide
  obtain ⟨n, v⟩ := r
  have hframe := hsteps.frame
  cases hsteps.negRead hw.steady (hw.later hlater) with
  | waits hn hv hsize hheld hlast hbuf htook =>
    obtain rfl : n = NGX_AGAIN := hn
    have hnum' : v.nc.msg_num = w.nc.msg_num := hframe.msg_num
    have hleft : left = v.nc.neg_data.held ++ v.env.rx.bytes := hw.left.trans hheld.symm
    refine .waits ?_ hframe.reads ?_ hnum' (hnum' ▸ hlater) hlast htook
    · intro hnil
      rw [hnil, List.append_nil] at hleft
      exact negotiation_part_of_short hnum (hleft ▸ v.nc.neg_data.length_held)
    · refine ⟨hv.congr rfl rfl, rfl,
        (hframe.other .noise_msg (by simp)).trans hw.unset, ?_, ?_, fun _ => hsize, hleft⟩
      · show IsMessage v.nc.msg_num
        rw [hnum']
        exact hw.num
      · intro hfirst
        exact absurd (hnum'.symm.trans hfirst) hlater
  | refused b0 b1 rest hn hbytes hne u htook htrace =>
    obtain rfl : n = NGX_ERROR := hn
    refine .refused ?_ hframe.reads ⟨_, hlater, u, htook, htrace⟩
    rw [hw.left, hbytes, negotiation_part_of_bytes b0 b1 rest hnum, if_neg hne]
  | got v' b0 b1 hbytes heq hv hframe' hneg' hbuf htaken hr =>
    rw [read_part_zero] at hr
    cases hr
    cases hneg

theorem AtMessage.passed (hw : w.AtMessage left)
    (hnum : w.nc.msg_num = NGX_NSOC_2MSG_OK ∨ w.nc.msg_num = NGX_NSOC_3MSG) (hsteps : NegSteps 0 w r)
    (hge : 0 ≤ r.1) : NegGate w left (.leave NGX_OK (r.2.setMsgNum (next_num w.nc.msg_num))) := by
  have hlater : w.nc.msg_num ≠ NGX_NSOC_1MSG := by
    rcases hnum with hnum | hnum <;> rw [hnum] <;> decide
  cases hsteps.negRead hw.steady (hw.later hlater) with
  | waits hn => simp [hn] at hge
  | refused b0 b1 rest hn => simp [hn] at hge
  | got v b0 b1 hbytes heq hv hframe hneg hbuf htaken hr u htook htrace =>
    rw [read_part_zero] at hr
    subst hr
    refine .passed ?_ (hframe.reads.trans (v.reads_setMsgNum _)) ?_ ?_ rfl (.inr ⟨hlater, u, htook, htrace⟩)
    · rw [hw.left, hbytes, negotiation_part_of_bytes b0 b1 _ hnum, if_pos heq]
      rfl
    · exact hv.congr rfl rfl
    · exact (hframe.other .noise_msg (by simp)).trans hw.unset

theorem AtMessage.negGate {e : ReadExit S} (hw : w.AtMessage left) (h : GateOutcome w e) : NegGate w left e := by
  cases h with
  | first hnum =>
    refine .passed ?_ (w.reads_setMsgNum _) ?_ hw.unset ?_ (.inl ⟨hnum, rfl⟩)
    · unfold Dialogue.negotiation_part
      rw [if_pos hnum, hw.left, hw.first hnum]
      rfl
    · exact hw.steady.congr rfl rfl
    · rw [hnum]
      rfl
  | stopped hnum hsteps hneg => exact hw.stopped hnum hsteps hneg
  | second hnum hsteps hge _ =>
    have hnext : next_num w.nc.msg_num = NGX_NSOC_3MSG := by
      rw [hnum]
      rfl
    exact hnext ▸ hw.passed (.inl hnum) hsteps hge
  | third hnum hsteps hge =>
    have hnext : next_num w.nc.msg_num = NGX_NSOC_1MSG := by
      rw [hnum]
      rfl
    exact hnext ▸ hw.passed (.inr hnum) hsteps hge
  | reread hnum hk hneg _ =>
    have hinc := hw.later (by rw [hnum]; decide)
    rw [hneg] at hinc
    cases hinc
  | unknown hnum =>
    rcases hw.num with h | h | h
    · exact absurd h hnum.1
    · exact absurd h hnum.2.1
    · exact absurd h hnum.2.2

end

end Endpoint

end ngx_nsoc
