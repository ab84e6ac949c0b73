import NoiseSocket.Handler.Frame

open Exec Exec.Result

namespace ngx_nsoc

variable {S : Type}

@[simp]
theorem NoiseConnection.size_setSize (nc : NoiseConnection) (f : LenField) (size : SizeField) :
    (nc.setSize size f).size f = size := by
  cases f <;> rfl

theorem NoiseConnection.size_setSize_of_ne (nc : NoiseConnection) {f g : LenField}
    (size : SizeField) (h : g ≠ f) : (nc.setSize size f).size g = nc.size g := by
  cases f <;> cases g <;> first | rfl | exact absurd rfl h

namespace Endpoint

/-- What a length reader leaves alone. -/
structure LenFrame (f : LenField) (w w' : Endpoint S) : Prop where
  reads : Reads w w'
  read_timer : w'.c.read.timer_set = w.c.read.timer_set
  read_handler : w'.c.read.handler = w.c.read.handler
  write_handler : w'.c.write.handler = w.c.write.handler
  buf : w'.nc.buf = w.nc.buf
  msg_num : w'.nc.msg_num = w.nc.msg_num
  other : ∀ g, g ≠ f → w'.nc.size g = w.nc.size g
  env : w'.env = { w.env with rx := w'.env.rx }
  took : Took f.part w w'

theorem LenFrame.trans {f : LenField} {u v w : Endpoint S} (h : LenFrame f u v)
    (h' : LenFrame f v w) : LenFrame f u w :=
  ⟨h.reads.trans h'.reads, h'.read_timer.trans h.read_timer,
    h'.read_handler.trans h.read_handler, h'.write_handler.trans h.write_handler,
    h'.buf.trans h.buf, h'.msg_num.trans h.msg_num,
    fun g hg => (h'.other g hg).trans (h.other g hg), by rw [h'.env, h.env], h.took.trans h'.took⟩

theorem lenFrame_setSize (w : Endpoint S) (f : LenField) (size : SizeField) :
    LenFrame f w (w.setSize f size) := by
  refine ⟨w.reads_setSize f size, rfl, rfl, rfl, ?_, ?_, ?_, rfl, took_nothing rfl rfl⟩
  · cases f <;> rfl
  · cases f <;> rfl
  · exact fun g hg => w.nc.size_setSize_of_ne size hg

@[simp]
theorem size_setLast (w : Endpoint S) (last : Int) (f : LenField) :
    (w.setLast last).nc.size f = w.nc.size f := by
  cases f <;> rfl

theorem lenFrame_setLast (w : Endpoint S) (f : LenField) (last : Int) :
    LenFrame f w (w.setLast last) := by
  refine ⟨w.reads_setLast last, rfl, rfl, rfl, rfl, rfl, ?_, rfl, took_nothing rfl rfl⟩
  intro g _
  cases g <;> rfl

theorem read_timer_recv (w : Endpoint S) (part : Part) (size : Nat) :
    (w.ngx_recv part size).2.2.c.read.timer_set = w.c.read.timer_set := by
  simp only [ngx_recv]
  generalize (w.env.rx.recv size).1 = answer
  rcases answer with (_ | ⟨_, _⟩) | _ | _ | _ <;> rfl

theorem lenFrame_recv (w : Endpoint S) (f : LenField) (size : Nat) :
    LenFrame f w (w.ngx_recv f.part size).2.2 :=
  ⟨w.reads_recv f.part size, w.read_timer_recv f.part size, w.read_handler_recv f.part size, rfl,
    rfl, rfl, fun _ _ => rfl, rfl, w.took_recv f.part size⟩

/-- The effect of a socket read that is answered with `answer`. -/
theorem recv_spec {w : Endpoint S} (part : Part) {size : Nat} {answer : Net.Answer}
    {before rx : Net.Incoming} (hrx : w.env.rx = before) (h : before.recv size = (answer, rx)) :
    ∃ v : Endpoint S, w.ngx_recv part size = (answerCode answer, answerBytes answer, v) ∧
      v.env.rx = rx ∧ v.nc = w.nc ∧ v.c.read.eof = (w.c.read.afterRecv answer).eof ∧
      v.trace = .recv part size (answerCode answer) (answerBytes answer) :: w.trace ∧
      v = (w.ngx_recv part size).2.2 := by
  refine ⟨(w.ngx_recv part size).2.2, ?_, ?_, rfl, ?_, ?_, rfl⟩
  all_goals simp [ngx_recv, hrx, h]

/-- A socket read of a length. -/
theorem len_recv_spec {w : Endpoint S} (f : LenField) {size : Nat} {answer : Net.Answer}
    {before rx : Net.Incoming} (hrx : w.env.rx = before) (h : before.recv size = (answer, rx)) :
    ∃ v : Endpoint S, w.ngx_recv f.part size = (answerCode answer, answerBytes answer, v) ∧
      v.env.rx = rx ∧ v.nc = w.nc ∧ v.c.read.eof = (w.c.read.afterRecv answer).eof ∧ LenFrame f w v := by
  obtain ⟨v, hrecv, hv, hnc, heof, -, rfl⟩ := recv_spec f.part hrx h
  exact ⟨_, hrecv, hv, hnc, heof, w.lenFrame_recv f size⟩

end Endpoint

/-- What a length reader gets out of a stream: a length, or what it has to save
on a pause, a failure, or the end of the stream. -/
inductive LenAnswer where
  | got (size : Nat)
  | again (saved : SizeField)
  | error (saved : SizeField)
  | closed (saved : SizeField)
deriving DecidableEq, Repr

/-- The return value. End of file is reported as a count of zero. -/
def LenAnswer.code : LenAnswer → Int
  | .got _ => NGX_OK
  | .again _ => NGX_AGAIN
  | .error _ => NGX_ERROR
  | .closed _ => NGX_OK

def LenAnswer.size : LenAnswer → SizeField
  | .got size => .known size
  | .again saved => saved
  | .error saved => saved
  | .closed saved => saved

/-- The value of `nc->last` behind the reader: an error or the end of file is kept. -/
def LenAnswer.last (last : Int) : LenAnswer → Int
  | .got _ => last
  | .again _ => last
  | .error _ => NGX_ERROR
  | .closed _ => 0

def LenAnswer.eof : LenAnswer → Bool
  | .closed _ => true
  | _ => false

/-- The second byte of a length whose first byte is `b0`; `saved` is what the
size field holds unless the read pauses. -/
def second_byte (b0 : UInt8) (saved : SizeField) : Net.Incoming → LenAnswer × Net.Incoming
  | ⟨.data b1 bs :: rest, closed⟩ => (.got (be16 b0 b1), ⟨Net.unread bs rest, closed⟩)
  | ⟨.again :: rest, closed⟩ => (.again (.first b0), ⟨rest, closed⟩)
  | ⟨.error :: rest, closed⟩ => (.error saved, ⟨rest, closed⟩)
  | ⟨[], false⟩ => (.again (.first b0), ⟨[], false⟩)
  | ⟨[], true⟩ => (.closed saved, ⟨[], true⟩)

/-- Both bytes of a length. -/
def both_bytes : Net.Incoming → LenAnswer × Net.Incoming
  | ⟨.data b0 [] :: rest, closed⟩ => second_byte b0 .unset ⟨rest, closed⟩
  | ⟨.data b0 (b1 :: bs) :: rest, closed⟩ => (.got (be16 b0 b1), ⟨Net.unread bs rest, closed⟩)
  | ⟨.again :: rest, closed⟩ => (.again .unset, ⟨rest, closed⟩)
  | ⟨.error :: rest, closed⟩ => (.error .unset, ⟨rest, closed⟩)
  | ⟨[], false⟩ => (.again .unset, ⟨[], false⟩)
  | ⟨[], true⟩ => (.closed .unset, ⟨[], true⟩)

/-- What the length readers are for, on the stream alone: the length in front of
the stream, of which the size field may already hold the first byte. A first
byte that was saved and is not followed by another is taken for the length. -/
def take_len : SizeField → Net.Incoming → LenAnswer × Net.Incoming
  | .first b0, rx => second_byte b0 (.known b0.toNat) rx
  | _, rx => both_bytes rx

namespace Endpoint

/-- A length reader has taken `answer` from the stream of `w`, and `rx` is left. -/
structure LenResult (f : LenField) (w w' : Endpoint S) (taken : LenAnswer × Net.Incoming) :
    Prop where
  frame : LenFrame f w w'
  size : w'.nc.size f = taken.1.size
  last : w'.nc.last = taken.1.last w.nc.last
  rx : w'.env.rx = taken.2
  eof : w'.c.read.eof = (w.c.read.eof || taken.1.eof)

theorem LenResult.of_frame {f : LenField} {u v w : Endpoint S}
    {taken : LenAnswer × Net.Incoming} (hframe : LenFrame f u v)
    (heof : v.c.read.eof = u.c.read.eof) (hlast : v.nc.last = u.nc.last)
    (h : LenResult f v w taken) : LenResult f u w taken :=
  ⟨hframe.trans h.frame, h.size, by rw [h.last, hlast], h.rx, by rw [h.eof, heof]⟩

theorem last_setSize (w : Endpoint S) (f : LenField) (size : SizeField) :
    (w.setSize f size).nc.last = w.nc.last := by
  cases f <;> rfl

/-- The pass that ends a length reader, seen from the state behind the read. -/
theorem lenResult_setSize {f : LenField} {w v : Endpoint S} {size : SizeField}
    {taken : LenAnswer × Net.Incoming} (hframe : LenFrame f w v) (hsize : size = taken.1.size)
    (hlast : v.nc.last = taken.1.last w.nc.last) (hrx : v.env.rx = taken.2) (heof : v.c.read.eof = (w.c.read.eof || taken.1.eof)) :
    LenResult f w (v.setSize f size) taken :=
  ⟨hframe.trans (v.lenFrame_setSize f _), by simp [setSize, hsize],
    by rw [← hlast]; exact v.last_setSize f size, hrx, heof⟩

/-- A pass with one byte in hand is the last one. -/
theorem read_len_body_second (f : LenField) (b0 : UInt8) (w : Endpoint S) :
    ∃ w', read_len_body f ([b0], w) =
        ok (.done ((second_byte b0 (w.nc.size f).stop_reading w.env.rx).1.code, w')) ∧
      LenResult f w w' (second_byte b0 (w.nc.size f).stop_reading w.env.rx) := by
  rcases hrx : w.env.rx with ⟨_ | ⟨_ | _ | _, rest⟩, closed⟩
  · cases closed with
    | false =>
      obtain ⟨v, hrecv, hv, hnc, heof, hframe⟩ := len_recv_spec f hrx (Net.recv_open 1)
      refine ⟨v.setSize f (.first b0), ?_, lenResult_setSize hframe rfl (congrArg _ hnc) hv ?_⟩
      · simp [read_len_body, hrecv, answerCode, second_byte, LenAnswer.code]
      · simp [heof, Event.afterRecv, LenAnswer.eof, second_byte]
    | true =>
      obtain ⟨v, hrecv, hv, hnc, heof, hframe⟩ := len_recv_spec f hrx (Net.recv_closed 1)
      refine ⟨(v.setLast 0).setSize f (w.nc.size f).stop_reading, ?_,
        lenResult_setSize (hframe.trans (v.lenFrame_setLast f 0)) rfl rfl hv ?_⟩
      · simp [read_len_body, hrecv, answerCode, second_byte, LenAnswer.code, hnc]
      · simp [heof, Event.afterRecv, LenAnswer.eof, second_byte, setLast]
  · rename_i b1 bs
    obtain ⟨v, hrecv, hv, hnc, heof, hframe⟩ := len_recv_spec f hrx (Net.recv_data b1 bs rest closed 1)
    refine ⟨v.setSize f (.known (be16 b0 b1)), ?_, lenResult_setSize hframe rfl (congrArg _ hnc) hv ?_⟩
    · simp [read_len_body, hrecv, answerCode, answerBytes, second_byte, LenAnswer.code]
    · simp [heof, Event.afterRecv, LenAnswer.eof, second_byte]
  · obtain ⟨v, hrecv, hv, hnc, heof, hframe⟩ := len_recv_spec f hrx (Net.recv_again rest closed 1)
    refine ⟨v.setSize f (.first b0), ?_, lenResult_setSize hframe rfl (congrArg _ hnc) hv ?_⟩
    · simp [read_len_body, hrecv, answerCode, second_byte, LenAnswer.code]
    · simp [heof, Event.afterRecv, LenAnswer.eof, second_byte]
  · obtain ⟨v, hrecv, hv, hnc, heof, hframe⟩ := len_recv_spec f hrx (Net.recv_error rest closed 1)
    refine ⟨(v.setLast (-1)).setSize f (w.nc.size f).stop_reading, ?_,
      lenResult_setSize (hframe.trans (v.lenFrame_setLast f _)) rfl rfl hv ?_⟩
    · simp [read_len_body, hrecv, answerCode, second_byte, LenAnswer.code, hnc]
    · simp [heof, Event.afterRecv, LenAnswer.eof, second_byte, setLast]

/-- From no byte in hand, with the size unset, two passes are enough. -/
theorem read_len_loop_both (f : LenField) {fuel : Nat} (w : Endpoint S) (hfuel : 2 ≤ fuel)
    (hsize : w.nc.size f = .unset) :
    ∃ w', loop (read_len_body f) fuel ([], w) = ok ((both_bytes w.env.rx).1.code, w') ∧
      LenResult f w w' (both_bytes w.env.rx) := by
  rcases hrx : w.env.rx with ⟨_ | ⟨⟨b0, _ | ⟨b1, bs⟩⟩ | _ | _, rest⟩, closed⟩
  · cases closed with
    | false =>
      obtain ⟨v, hrecv, hv, hnc, heof, hframe⟩ := len_recv_spec f hrx (Net.recv_open 2)
      refine ⟨v.setSize f .unset, loop_of_done (by omega) ?_, lenResult_setSize hframe rfl (congrArg _ hnc) hv ?_⟩
      · simp [read_len_body, hrecv, answerCode, both_bytes, LenAnswer.code, hnc, hsize,
          SizeField.stop_reading]
      · simp [heof, Event.afterRecv, LenAnswer.eof, both_bytes]
    | true =>
      obtain ⟨v, hrecv, hv, hnc, heof, hframe⟩ := len_recv_spec f hrx (Net.recv_closed 2)
      refine ⟨(v.setLast 0).setSize f .unset, loop_of_done (by omega) ?_,
        lenResult_setSize (hframe.trans (v.lenFrame_setLast f 0)) rfl rfl hv ?_⟩
      · simp [read_len_body, hrecv, answerCode, both_bytes, LenAnswer.code, hnc, hsize,
          SizeField.stop_reading]
      · simp [heof, Event.afterRecv, LenAnswer.eof, both_bytes, setLast]
  · obtain ⟨v, hrecv, hv, hnc, heof, hframe⟩ := len_recv_spec f hrx (Net.recv_data b0 [] rest closed 2)
    obtain ⟨w', hbody, hresult⟩ := v.read_len_body_second f b0
    have hfirst : read_len_body f ([], w) = ok (.cont ([b0], v)) := by
      simp [read_len_body, hrecv, answerCode, answerBytes]
    obtain ⟨k, rfl⟩ : ∃ k, fuel = k + 1 := ⟨fuel - 1, by omega⟩
    have htaken : second_byte b0 (v.nc.size f).stop_reading v.env.rx =
        both_bytes ⟨.data b0 [] :: rest, closed⟩ := by
      rw [hnc, hsize, hv]
      rfl
    rw [htaken] at hbody hresult
    refine ⟨w', ?_, hresult.of_frame hframe (by simp [heof, Event.afterRecv]) (congrArg _ hnc)⟩
    rw [loop_of_cont hfirst]
    exact loop_of_done (by omega) hbody
  · obtain ⟨v, hrecv, hv, hnc, heof, hframe⟩ := len_recv_spec f hrx (Net.recv_data b0 (b1 :: bs) rest closed 2)
    refine ⟨v.setSize f (.known (be16 b0 b1)), loop_of_done (by omega) ?_,
      lenResult_setSize hframe rfl (congrArg _ hnc) hv ?_⟩
    · simp [read_len_body, hrecv, answerCode, answerBytes, both_bytes, LenAnswer.code]
    · simp [heof, Event.afterRecv, LenAnswer.eof, both_bytes]
  · obtain ⟨v, hrecv, hv, hnc, heof, hframe⟩ := len_recv_spec f hrx (Net.recv_again rest closed 2)
    refine ⟨v.setSize f .unset, loop_of_done (by omega) ?_, lenResult_setSize hframe rfl (congrArg _ hnc) hv ?_⟩
    · simp [read_len_body, hrecv, answerCode, both_bytes, LenAnswer.code, hnc, hsize,
        SizeField.stop_reading]
    · simp [heof, Event.afterRecv, LenAnswer.eof, both_bytes]
  · obtain ⟨v, hrecv, hv, hnc, heof, hframe⟩ := len_recv_spec f hrx (Net.recv_error rest closed 2)
    refine ⟨(v.setLast (-1)).setSize f .unset, loop_of_done (by omega) ?_,
      lenResult_setSize (hframe.trans (v.lenFrame_setLast f _)) rfl rfl hv ?_⟩
    · simp [read_len_body, hrecv, answerCode, both_bytes, LenAnswer.code, hnc, hsize,
        SizeField.stop_reading]
    · simp [heof, Event.afterRecv, LenAnswer.eof, both_bytes, setLast]

/-- A length reader returns what `take_len` says, and touches nothing but its own
size field, `nc->last`, and the socket. -/
theorem read_len_spec (f : LenField) {fuel : Nat} (w : Endpoint S) (hfuel : 2 ≤ fuel) :
    ∃ w', w.read_len f fuel = ok ((take_len (w.nc.size f) w.env.rx).1.code, w') ∧
      LenResult f w w' (take_len (w.nc.size f) w.env.rx) := by
  have hboth : ∃ w', loop (read_len_body f) fuel ([], w.setSize f .unset) =
      ok ((both_bytes w.env.rx).1.code, w') ∧ LenResult f w w' (both_bytes w.env.rx) := by
    obtain ⟨w', hloop, hresult⟩ := read_len_loop_both f (w.setSize f .unset) hfuel (by simp [setSize])
    exact ⟨w', hloop, hresult.of_frame (w.lenFrame_setSize f .unset) rfl (w.last_setSize f .unset)⟩
  rcases hsize : w.nc.size f with _ | b0 | size
  · simpa only [read_len, hsize, take_len] using hboth
  · obtain ⟨w', hbody, hresult⟩ := w.read_len_body_second f b0
    rw [hsize, SizeField.stop_reading] at hbody hresult
    refine ⟨w', ?_, hresult⟩
    simp only [read_len, hsize]
    exact loop_of_done (by omega) hbody
  · simpa only [read_len, hsize, take_len] using hboth

theorem read_len_mono {f : LenField} {fuel more : Nat} {w : Endpoint S} {r : Int × Endpoint S}
    (hle : fuel ≤ more) (h : w.read_len f fuel = ok r) : w.read_len f more = ok r := by
  unfold read_len at h ⊢
  split at h <;> exact loop_mono (fun _ _ hflow => hflow) hle h

/-- What the length reader returns is what `take_len` says. -/
theorem read_len_cases {f : LenField} {fuel : Nat} {w : Endpoint S} {r : Int × Endpoint S}
    (h : w.read_len f fuel = ok r) : r.1 = (take_len (w.nc.size f) w.env.rx).1.code ∧
      LenResult f w r.2 (take_len (w.nc.size f) w.env.rx) := by
  obtain ⟨v, hlen, hresult⟩ := w.read_len_spec f (Nat.le_add_left 2 fuel)
  rw [read_len_mono (Nat.le_add_right fuel 2) h] at hlen
  cases hlen
  exact ⟨rfl, hresult⟩

end Endpoint

end ngx_nsoc
