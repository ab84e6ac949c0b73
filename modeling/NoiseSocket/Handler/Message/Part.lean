import NoiseSocket.Handler.Message.Readers

open Exec Exec.Result

namespace ngx_nsoc

variable {S : Type}

namespace Endpoint

/-- What the readers of a data part leave alone. -/
structure PartFrame (w w' : Endpoint S) : Prop where
  reads : Reads w w'
  neg_data : w'.nc.neg_data = w.nc.neg_data
  noise_msg : w'.nc.noise_msg = w.nc.noise_msg
  msg_num : w'.nc.msg_num = w.nc.msg_num
  read_handler : w'.c.read.handler = w.c.read.handler
  write_handler : w'.c.write.handler = w.c.write.handler

theorem PartFrame.refl (w : Endpoint S) : PartFrame w w :=
  ⟨.refl w, rfl, rfl, rfl, rfl, rfl⟩

theorem PartFrame.trans {u v w : Endpoint S} (h : PartFrame u v) (h' : PartFrame v w) :
    PartFrame u w :=
  ⟨h.reads.trans h'.reads, h'.neg_data.trans h.neg_data, h'.noise_msg.trans h.noise_msg,
    h'.msg_num.trans h.msg_num, h'.read_handler.trans h.read_handler,
    h'.write_handler.trans h.write_handler⟩

theorem DataFrame.partFrame {w w' : Endpoint S} (h : DataFrame w w') : PartFrame w w' :=
  ⟨h.reads, h.neg_data, h.noise_msg, h.msg_num, h.read_handler, h.write_handler⟩

theorem partFrame_read_again (w : Endpoint S) : PartFrame w w.read_again.2 := by
  refine ⟨w.reads_read_again, ?_, ?_, ?_, ?_, ?_⟩
  all_goals
    unfold read_again
    dsimp only
    split_ifs <;> rfl

theorem partFrame_read_finish (w : Endpoint S) (n : Int) (size : Nat) :
    PartFrame w (w.read_finish n size).2 := by
  refine ⟨w.reads_read_finish n size, ?_, ?_, ?_, ?_, ?_⟩
  all_goals
    unfold read_finish
    dsimp only
    split_ifs <;> rfl

/-- Both exits with `NGX_AGAIN` fail when the event cannot be armed. -/
def EventRefused (w : Endpoint S) : Prop := (nextAnswer w.env.events).1 = false

/-- `w'` is `w` but for `nc->last`, which says that a read is to be resumed, and
the answer of the event core that was used up. -/
structure Suspends (w w' : Endpoint S) : Prop where
  last : w'.nc.last = NOISE_ACTION_READ_MESSAGE
  buf : w'.nc.buf = w.nc.buf
  rx : w'.env.rx = w.env.rx
  eof : w'.c.read.eof = w.c.read.eof
  trace : w'.trace = w.trace

theorem read_again_cases (w : Endpoint S) :
    w.EventRefused ∧ w.read_again.1 = NGX_ERROR ∨
      w.read_again.1 = NGX_AGAIN ∧ Suspends w w.read_again.2 ∧
        w.read_again.2.c.read.timer_set = true := by
  rcases hanswer : (nextAnswer w.env.events).1 with _ | _
  · left
    refine ⟨hanswer, ?_⟩
    simp [read_again, ngx_handle_event, setLast, hanswer]
  · right
    have heq : w.read_again =
        (NGX_AGAIN, ((w.setLast NOISE_ACTION_READ_MESSAGE).ngx_handle_event.2).setReadTimer true) := by
      simp [read_again, ngx_handle_event, setLast, hanswer]
    rw [heq]
    exact ⟨rfl, ⟨rfl, rfl, rfl, rfl, rfl⟩, rfl⟩

/-- A part of which too little came in suspends the reader without a timer. -/
theorem read_finish_of_lt (w : Endpoint S) {n : Int} {size : Nat} (h : n < size) :
    w.EventRefused ∧ (w.read_finish n size).1 = NGX_ERROR ∨
      (w.read_finish n size).1 = NGX_AGAIN ∧ Suspends w (w.read_finish n size).2 ∧
        (w.read_finish n size).2.c.read.timer_set = w.c.read.timer_set := by
  rcases hanswer : (nextAnswer w.env.events).1 with _ | _
  · left
    refine ⟨hanswer, ?_⟩
    simp [read_finish, h, ngx_handle_event, setLast, hanswer]
  · right
    have heq : w.read_finish n size =
        (NGX_AGAIN, (w.setLast NOISE_ACTION_READ_MESSAGE).ngx_handle_event.2) := by
      simp [read_finish, h, ngx_handle_event, setLast, hanswer]
    rw [heq]
    exact ⟨rfl, ⟨rfl, rfl, rfl, rfl, rfl⟩, rfl⟩

theorem read_finish_of_le {w : Endpoint S} {n : Int} {size : Nat} (h : (size : Int) ≤ n) :
    w.read_finish n size = (n, w) := by
  simp [read_finish, show ¬ n < size by omega]

/-- What one socket read puts into the buffer, and the rest of the stream, if it
delivers all of a part of `size` bytes. -/
def part_rx (w : Endpoint S) (size : Nat) : Option (List UInt8 × Net.Incoming) :=
  match w.target size with
  | none => none
  | some b =>
    if w.c.read.eof then none
    else
      match w.env.rx.recv b.room with
      | (.data got, rx) => if size ≤ got.length then some (b.bytes ++ got, rx) else none
      | _ => none

section

variable {w : Endpoint S} {size : Nat} {b : Buf}

/-- Which fields matter for a part. -/
theorem part_rx_congr {u : Endpoint S} (size : Nat) (hbuf : u.nc.buf = w.nc.buf)
    (hallocs : u.env.allocs = w.env.allocs) (hrx : u.env.rx = w.env.rx)
    (heof : u.c.read.eof = w.c.read.eof) : u.part_rx size = w.part_rx size := by
  simp only [part_rx, target, hbuf, hallocs, hrx, heof]

theorem part_rx_of_no_buf (hbuf : w.nc.buf = none) (halloc : (nextAnswer w.env.allocs).1 = false) :
    w.part_rx size = none := by
  simp [part_rx, target, hbuf, halloc]

theorem part_rx_of_eof (heof : w.c.read.eof = true) : w.part_rx size = none := by
  unfold part_rx
  split
  · rfl
  · simp [heof]

theorem part_rx_of_answer {answer : Net.Answer} {rx : Net.Incoming} (hb : w.Target size b)
    (hrecv : w.env.rx.recv b.room = (answer, rx)) (hdata : ∀ got, answer ≠ .data got) :
    w.part_rx size = none := by
  cases answer with
  | data got => exact absurd rfl (hdata got)
  | eof | again | error =>
    simp [part_rx, target_eq_some.mpr hb, hrecv]

theorem part_rx_of_short {got : List UInt8} {rx : Net.Incoming} (hb : w.Target size b)
    (hrecv : w.env.rx.recv b.room = (.data got, rx)) (hlt : got.length < size) :
    w.part_rx size = none := by
  simp [part_rx, target_eq_some.mpr hb, hrecv, hlt]

theorem part_rx_of_full (hb : w.Target size b) (hpos : 0 < size) (hroom : b.room = 0) :
    w.part_rx size = none := by
  rcases hrecv : w.env.rx.recv b.room with ⟨answer, rx⟩
  cases answer with
  | data got =>
    have hle := Net.length_le_of_recv_data hrecv
    exact part_rx_of_short hb hrecv (by omega)
  | eof | again | error => exact part_rx_of_answer hb hrecv (by simp)

theorem part_rx_of_whole {got : List UInt8} {rx : Net.Incoming} (hb : w.Target size b)
    (heof : w.c.read.eof = false) (hrecv : w.env.rx.recv b.room = (.data got, rx))
    (hle : size ≤ got.length) : w.part_rx size = some (b.bytes ++ got, rx) := by
  simp [part_rx, target_eq_some.mpr hb, heof, hrecv, hle]

end

/-- Why a reader of a part gives up. -/
inductive PartFailure (w : Endpoint S) (size : Nat) : Prop where
  | no_buf (hbuf : w.nc.buf = none) (halloc : (nextAnswer w.env.allocs).1 = false)
  | full (b : Buf) (hb : w.Target size b) (hroom : b.room = 0)
  | socket (b : Buf) (hb : w.Target size b) (hrecv : (w.env.rx.recv b.room).1 = .error)
  | event (hevents : w.EventRefused)

/-- How the reader of a part of `size` bytes can end. -/
inductive PartOutcome (part : Part) (size : Nat) (w : Endpoint S) (r : Int × Endpoint S) :
    Prop where
  | empty (hsize : size = 0) (hr : r = (0, w))
  | failed (hpos : 0 < size) (hn : r.1 = NGX_ERROR) (why : PartFailure w size)
      (hpart : w.part_rx size = none)
  | again (b : Buf) (hpos : 0 < size) (hb : w.Target size b) (hn : r.1 = NGX_AGAIN)
      (heof : w.c.read.eof = false) (hrecv : w.env.rx.recv b.room = (.again, r.2.env.rx))
      (heof' : r.2.c.read.eof = false) (hbuf : r.2.nc.buf = some b)
      (hlast : r.2.nc.last = NOISE_ACTION_READ_MESSAGE) (htimer : r.2.c.read.timer_set = true)
  | known_eof (hpos : 0 < size) (hn : r.1 = NGX_AGAIN)
      (heof : w.c.read.eof = true) (heof' : r.2.c.read.eof = true)
      (hlast : r.2.nc.last = NOISE_ACTION_READ_MESSAGE)
      (htimer : r.2.c.read.timer_set = w.c.read.timer_set)
  | closed (b : Buf) (hpos : 0 < size) (hb : w.Target size b) (hn : r.1 = NGX_AGAIN)
      (heof : w.c.read.eof = false) (hrecv : w.env.rx.recv b.room = (.eof, r.2.env.rx))
      (hlast : r.2.nc.last = NOISE_ACTION_READ_MESSAGE)
      (hlog : .recv part b.room 0 [] ∈ r.2.trace)
  | short (b : Buf) (got : List UInt8) (hb : w.Target size b) (hn : r.1 = NGX_AGAIN)
      (hpos : 0 < got.length) (hlt : got.length < size)
      (heof : w.c.read.eof = false) (hrecv : w.env.rx.recv b.room = (.data got, r.2.env.rx))
      (hlast : r.2.nc.last = NOISE_ACTION_READ_MESSAGE)
      (hlog : .recv part b.room got.length got ∈ r.2.trace) (heof' : r.2.c.read.eof = false)
      (hbuf : r.2.nc.buf = some { b with bytes := b.bytes ++ got })
  | whole (b : Buf) (got : List UInt8) (hpos : 0 < size) (hb : w.Target size b)
      (hn : r.1 = got.length) (hsize : size ≤ got.length) (hle : got.length ≤ b.room)
      (heof : w.c.read.eof = false) (hrecv : w.env.rx.recv b.room = (.data got, r.2.env.rx))
      (heof' : r.2.c.read.eof = false) (hlast : r.2.nc.last = w.nc.last)
      (hbuf : r.2.nc.buf = some { b with bytes := b.bytes ++ got })
      (hallocs : r.2.env.allocs = w.allocs_left)

/-- The event core is not asked before the end of a part. -/
theorem eventRefused_read_handshake_data {w w' : Endpoint S} {part : Part} {size : Nat} {n : Int}
    (h : w.read_handshake_data part size = (n, w')) (hrefused : w'.EventRefused) :
    w.EventRefused := by
  have hevents : w'.env.events = w.env.events := by
    unfold read_handshake_data fill_buf at h
    split at h
    · dsimp only at h
      split_ifs at h <;> cases h <;> rfl
    · dsimp only at h
      split_ifs at h <;> cases h <;> rfl
  simpa only [EventRefused, hevents] using hrefused

theorem read_part_cases (part : Part) (size : Nat) (w : Endpoint S) :
    PartFrame w (w.read_part part size).2 ∧
      PartOutcome part size w (w.read_part part size) := by
  by_cases hsize : size = 0
  · subst hsize
    have heq : w.read_part part 0 = (0, w) := by simp [read_part, read_finish]
    rw [heq]
    exact ⟨.refl w, .empty rfl rfl⟩
  have hpos : 0 < size := Nat.pos_of_ne_zero hsize
  rcases hdata : w.read_handshake_data part size with ⟨n, v⟩
  obtain ⟨hframe, hout⟩ := read_handshake_data_cases hdata
  have hrefused := eventRefused_read_handshake_data hdata
  have heq : w.read_part part size =
      if 0 ≤ n then v.read_finish n size else if n = NGX_AGAIN then v.read_again else (n, v) := by
    simp [read_part, hsize, hdata]
  rw [heq]
  clear heq
  cases hout with
  | no_buf hn hbuf halloc =>
    subst hn
    exact ⟨hframe.partFrame, .failed hpos rfl (.no_buf hbuf halloc) (part_rx_of_no_buf hbuf halloc)⟩
  | full b hb hn hroom =>
    subst hn
    exact ⟨hframe.partFrame, .failed hpos rfl (.full b hb hroom) (part_rx_of_full hb hpos hroom)⟩
  | known_eof b hb hn hroom heof heof' htimer =>
    subst hn
    rw [if_pos (by simp)]
    refine ⟨hframe.partFrame.trans (v.partFrame_read_finish 0 size), ?_⟩
    rcases read_finish_of_lt v (show (0 : Int) < size by omega) with
      ⟨hev, hn⟩ | ⟨hn, hsus, htimer'⟩
    · exact .failed hpos hn (.event (hrefused hev)) (part_rx_of_eof heof)
    · exact .known_eof hpos hn heof (hsus.eof.trans heof') hsus.last (htimer'.trans htimer)
  | again b hb hn hroom heof hrecv heof' hbuf =>
    subst hn
    rw [if_neg (by simp), if_pos rfl]
    refine ⟨hframe.partFrame.trans v.partFrame_read_again, ?_⟩
    rcases v.read_again_cases with ⟨hev, hn⟩ | ⟨hn, hsus, htimer⟩
    · exact .failed hpos hn (.event (hrefused hev)) (part_rx_of_answer hb hrecv (by simp))
    · exact .again b hpos hb hn heof (by rw [hsus.rx]; exact hrecv) (hsus.eof.trans heof')
        (hsus.buf.trans hbuf) hsus.last htimer
  | error b hb hn heof hrecv =>
    subst hn
    exact ⟨hframe.partFrame, .failed hpos rfl (.socket b hb (by rw [hrecv]))
      (part_rx_of_answer hb hrecv (by simp))⟩
  | closed b hb hn heof hrecv hlog =>
    subst hn
    rw [if_pos (by simp)]
    refine ⟨hframe.partFrame.trans (v.partFrame_read_finish 0 size), ?_⟩
    rcases read_finish_of_lt v (show (0 : Int) < size by omega) with
      ⟨hev, hn⟩ | ⟨hn, hsus, -⟩
    · exact .failed hpos hn (.event (hrefused hev)) (part_rx_of_answer hb hrecv (by simp))
    · exact .closed b hpos hb hn heof (by rw [hsus.rx]; exact hrecv) hsus.last
        (by rw [hsus.trace]; exact hlog)
  | data b got hb hn hgot hle heof hrecv heof' hbuf hallocs hlog =>
    subst hn
    rw [if_pos (by simp)]
    refine ⟨hframe.partFrame.trans (v.partFrame_read_finish _ size), ?_⟩
    by_cases hlt : got.length < size
    · rcases read_finish_of_lt v (show (got.length : Int) < size by omega) with
        ⟨hev, hn⟩ | ⟨hn, hsus, -⟩
      · exact .failed hpos hn (.event (hrefused hev)) (part_rx_of_short hb hrecv hlt)
      · exact .short b got hb hn hgot hlt heof (by rw [hsus.rx]; exact hrecv) hsus.last
          (by rw [hsus.trace]; exact hlog) (hsus.eof.trans heof') (hsus.buf.trans hbuf)
    · rw [read_finish_of_le (by omega)]
      exact .whole b got hpos hb rfl (by omega) hle heof hrecv heof' hframe.last hbuf hallocs

theorem took_read_again (w : Endpoint S) (part : Part) : Took part w w.read_again.2 := by
  unfold read_again
  dsimp only
  split_ifs <;> exact took_nothing rfl rfl

theorem took_read_finish (w : Endpoint S) (part : Part) (n : Int) (size : Nat) :
    Took part w (w.read_finish n size).2 := by
  unfold read_finish
  dsimp only
  split_ifs <;> exact took_nothing rfl rfl

theorem took_read_handshake_data (w : Endpoint S) (part : Part) (size : Nat) :
    Took part w (w.read_handshake_data part size).2 := by
  have hfill : ∀ (v : Endpoint S) (b : Buf), Took part v (v.fill_buf part b).2 := by
    intro v b
    have hrecv := took_recv (v.setBuf (some b)) part b.room
    have hset : Took part v (v.setBuf (some b)) := took_nothing rfl rfl
    unfold fill_buf
    dsimp only
    split_ifs
    · exact hset
    · exact hset
    · exact hset.trans (hrecv.trans (took_nothing rfl rfl))
    · exact hset.trans hrecv
  have halloc : Took part w w.ngx_alloc.2 := took_nothing rfl rfl
  unfold read_handshake_data
  split
  · exact hfill w _
  · dsimp only
    split_ifs
    · exact halloc.trans (hfill _ _)
    · exact halloc

/-- What the reader of a part takes from the stream is for that part. -/
theorem took_read_part (w : Endpoint S) (part : Part) (size : Nat) : Took part w (w.read_part part size).2 := by
  have hdata : Took part w (if size ≠ 0 then w.read_handshake_data part size else (0, w)).2 := by
    split_ifs
    · exact w.took_read_handshake_data part size
    · exact took_nothing rfl rfl
  unfold read_part
  generalize (if size ≠ 0 then w.read_handshake_data part size else (0, w)) = q at hdata ⊢
  obtain ⟨n, v⟩ := q
  dsimp only at hdata ⊢
  split_ifs
  · exact hdata.trans (took_read_finish _ _ _ _)
  · exact hdata.trans (took_read_again _ _)
  · exact hdata

/-- A part with no bytes is there at once. -/
theorem read_part_zero (part : Part) (w : Endpoint S) : w.read_part part 0 = (0, w) := by
  simp [read_part, read_finish]

/-- A part with bytes never returns zero. -/
theorem read_part_ne_zero (w : Endpoint S) (part : Part) {size : Nat} (hpos : 0 < size) :
    (w.read_part part size).1 ≠ 0 := by
  cases (read_part_cases part size w).2 with
  | empty hsize _ => omega
  | failed _ hfail => simp [hfail]
  | again _ _ _ hagain | known_eof _ hagain | closed _ _ _ hagain | short _ _ _ hagain =>
    simp [hagain]
  | whole _ _ _ _ hlen hle => omega

/-- A part that was read to its end. -/
theorem part_rx_of_nonneg {part : Part} {size : Nat} {w : Endpoint S} (hpos : 0 < size)
    (hn : 0 ≤ (w.read_part part size).1) :
    ∃ b, (w.read_part part size).2.nc.buf = some b ∧
      w.part_rx size = some (b.bytes, (w.read_part part size).2.env.rx) ∧
      (w.read_part part size).2.env.allocs = w.allocs_left ∧ w.c.read.eof = false ∧
      (w.read_part part size).2.c.read.eof = false := by
  cases (read_part_cases part size w).2 with
  | empty hsize hr => omega
  | failed _ hfail => simp [hfail] at hn
  | again _ _ _ hagain | known_eof _ hagain | closed _ _ _ hagain | short _ _ _ hagain =>
    simp [hagain] at hn
  | whole b got _ hb _ hle _ heof hrecv heof' _ hbuf hallocs =>
    exact ⟨_, hbuf, part_rx_of_whole hb heof hrecv hle, hallocs, heof, heof'⟩

/-- A part that was not. -/
theorem part_rx_of_neg (part : Part) {size : Nat} {w : Endpoint S}
    (hn : (w.read_part part size).1 < 0) : w.part_rx size = none := by
  cases (read_part_cases part size w).2 with
  | empty hsize hr => simp [hr] at hn
  | failed _ _ _ hpart => exact hpart
  | again b _ hb _ _ hrecv => exact part_rx_of_answer hb hrecv (by simp)
  | known_eof _ _ heof => exact part_rx_of_eof heof
  | closed b _ hb _ _ hrecv => exact part_rx_of_answer hb hrecv (by simp)
  | short b got hb _ _ hlt _ hrecv => exact part_rx_of_short hb hrecv hlt
  | whole b got _ _ hlen =>
    rw [hlen] at hn
    omega

theorem last_of_read_part {part : Part} {size : Nat} {w : Endpoint S}
    (hn : (w.read_part part size).1 = NGX_AGAIN) :
    (w.read_part part size).2.nc.last = NOISE_ACTION_READ_MESSAGE := by
  cases (read_part_cases part size w).2 with
  | empty hsize hr => simp [hr] at hn
  | failed _ hfail => simp [hfail] at hn
  | again _ _ _ _ _ _ _ _ hlast => exact hlast
  | known_eof _ _ _ _ hlast => exact hlast
  | closed _ _ _ _ _ _ hlast => exact hlast
  | short _ _ _ _ _ _ _ _ hlast => exact hlast
  | whole _ _ _ _ hlen => simp [hlen] at hn

/-- What the two readers of a message leave alone; `f` is the length that the
reader owns. -/
structure FieldFrame (f : LenField) (w w' : Endpoint S) : Prop where
  reads : Reads w w'
  msg_num : w'.nc.msg_num = w.nc.msg_num
  other : ∀ g, g ≠ f → w'.nc.size g = w.nc.size g

theorem FieldFrame.trans {f : LenField} {u v w : Endpoint S} (h : FieldFrame f u v)
    (h' : FieldFrame f v w) : FieldFrame f u w :=
  ⟨h.reads.trans h'.reads, h'.msg_num.trans h.msg_num,
    fun g hg => (h'.other g hg).trans (h.other g hg)⟩

theorem PartFrame.fieldFrame {w w' : Endpoint S} (h : PartFrame w w') (f : LenField) :
    FieldFrame f w w' := by
  refine ⟨h.reads, h.msg_num, ?_⟩
  intro g _
  cases g
  · exact h.neg_data
  · exact h.noise_msg

theorem LenResult.fieldFrame {f : LenField} {w v : Endpoint S} {taken : LenAnswer × Net.Incoming}
    (h : LenResult f w.Hooked v taken) : FieldFrame f w v :=
  ⟨w.reads_setHandlers.trans h.frame.reads, h.frame.msg_num, h.frame.other⟩

theorem NegSteps.frame {true_len : Nat} {w : Endpoint S} {r : Int × Endpoint S}
    (h : NegSteps true_len w r) : FieldFrame .neg_data w r.2 := by
  cases h with
  | known k _ hr =>
    rw [hr]
    exact (read_part_cases _ _ _).1.fieldFrame _
  | again v _ _ hlen _ hr =>
    rw [hr]
    exact hlen.fieldFrame.trans (v.partFrame_read_again.fieldFrame _)
  | error v _ _ hlen _ hr =>
    rw [hr]
    exact hlen.fieldFrame
  | mismatch v _ hlen _ _ hr =>
    rw [hr]
    exact hlen.fieldFrame.trans ⟨v.reads_log rfl, rfl, fun _ _ => rfl⟩
  | accepted v _ hlen _ _ hr =>
    rw [hr]
    exact (hlen.fieldFrame.trans ⟨v.reads_log rfl, rfl, fun _ _ => rfl⟩).trans
      ((read_part_cases _ _ _).1.fieldFrame _)

theorem MsgSteps.frame {w : Endpoint S} {r : Int × Endpoint S} (h : MsgSteps w r) :
    FieldFrame .noise_msg w r.2 := by
  cases h with
  | known k _ hr =>
    rw [hr]
    exact (read_part_cases _ _ _).1.fieldFrame _
  | again v _ _ hlen _ hr =>
    rw [hr]
    exact hlen.fieldFrame.trans (v.partFrame_read_again.fieldFrame _)
  | error v _ _ hlen _ hr =>
    rw [hr]
    exact hlen.fieldFrame
  | accepted v k _ hlen _ _ hr =>
    rw [hr]
    exact hlen.fieldFrame.trans ((read_part_cases _ _ _).1.fieldFrame _)

theorem last_of_read_again {w : Endpoint S} (hn : w.read_again.1 = NGX_AGAIN) :
    w.read_again.2.nc.last = NOISE_ACTION_READ_MESSAGE := by
  rcases w.read_again_cases with ⟨-, hcode⟩ | ⟨-, hsus, -⟩
  · simp [hcode] at hn
  · exact hsus.last

theorem NegSteps.last {true_len : Nat} {w : Endpoint S} {r : Int × Endpoint S}
    (h : NegSteps true_len w r) (hn : r.1 = NGX_AGAIN) :
    r.2.nc.last = NOISE_ACTION_READ_MESSAGE := by
  cases h with
  | known k _ hr | accepted v _ _ _ _ hr =>
    rw [hr] at hn ⊢
    exact last_of_read_part hn
  | again v _ _ _ _ hr =>
    rw [hr] at hn ⊢
    exact last_of_read_again hn
  | error v _ _ _ _ hr | mismatch v _ _ _ _ hr => simp [hr] at hn

theorem MsgSteps.last {w : Endpoint S} {r : Int × Endpoint S} (h : MsgSteps w r)
    (hn : r.1 = NGX_AGAIN) : r.2.nc.last = NOISE_ACTION_READ_MESSAGE := by
  cases h with
  | known k _ hr | accepted v k _ _ _ _ hr =>
    rw [hr] at hn ⊢
    exact last_of_read_part hn
  | again v _ _ _ _ hr =>
    rw [hr] at hn ⊢
    exact last_of_read_again hn
  | error v _ _ _ _ hr => simp [hr] at hn

end Endpoint

end ngx_nsoc
