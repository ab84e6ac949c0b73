import NoiseSocket.Handler.Length.Cases

open Exec Exec.Result

namespace ngx_nsoc

variable {S : Type}

namespace Endpoint

/-- The buffer that a read of a part of `size` bytes fills. -/
def Target (w : Endpoint S) (size : Nat) (b : Buf) : Prop :=
  w.nc.buf = some b ∨ w.nc.buf = none ∧ (nextAnswer w.env.allocs).1 = true ∧ b = ⟨[], 0, size⟩

/-- The same as a function. -/
def target (w : Endpoint S) (size : Nat) : Option Buf :=
  match w.nc.buf with
  | some b => some b
  | none => if (nextAnswer w.env.allocs).1 then some ⟨[], 0, size⟩ else none

theorem target_eq_some {w : Endpoint S} {size : Nat} {b : Buf} :
    w.target size = some b ↔ w.Target size b := by
  rcases hbuf : w.nc.buf with _ | b'
  · rcases halloc : (nextAnswer w.env.allocs).1 with _ | _
    · simp [target, Target, hbuf, halloc]
    · simpa [target, Target, hbuf, halloc] using eq_comm
  · simp [target, Target, hbuf]

/-- The answers of the allocator that are left once there is a buffer. -/
def allocs_left (w : Endpoint S) : List Bool :=
  match w.nc.buf with
  | some _ => w.env.allocs
  | none => (nextAnswer w.env.allocs).2

/-- What reading into a handshake buffer leaves alone. -/
structure DataFrame (w w' : Endpoint S) : Prop where
  reads : Reads w w'
  neg_data : w'.nc.neg_data = w.nc.neg_data
  noise_msg : w'.nc.noise_msg = w.nc.noise_msg
  msg_num : w'.nc.msg_num = w.nc.msg_num
  last : w'.nc.last = w.nc.last
  read_handler : w'.c.read.handler = w.c.read.handler
  write_handler : w'.c.write.handler = w.c.write.handler

theorem DataFrame.trans {u v w : Endpoint S} (h : DataFrame u v) (h' : DataFrame v w) :
    DataFrame u w :=
  ⟨h.reads.trans h'.reads, h'.neg_data.trans h.neg_data, h'.noise_msg.trans h.noise_msg,
    h'.msg_num.trans h.msg_num, h'.last.trans h.last, h'.read_handler.trans h.read_handler,
    h'.write_handler.trans h.write_handler⟩

/-- How `ngx_nsoc_read_handshake_data` can end, by the buffer, the read event and
the answer of the socket. -/
inductive DataOutcome (part : Part) (size : Nat) (w w' : Endpoint S) (n : Int) : Prop where
  | no_buf (hn : n = NGX_ERROR) (hbuf : w.nc.buf = none)
      (halloc : (nextAnswer w.env.allocs).1 = false)
  | full (b : Buf) (hb : w.Target size b) (hn : n = NGX_ERROR) (hroom : b.room = 0)
  | known_eof (b : Buf) (hb : w.Target size b) (hn : n = 0) (hroom : 0 < b.room)
      (heof : w.c.read.eof = true) (heof' : w'.c.read.eof = true)
      (htimer : w'.c.read.timer_set = w.c.read.timer_set)
  | again (b : Buf) (hb : w.Target size b) (hn : n = NGX_AGAIN) (hroom : 0 < b.room)
      (heof : w.c.read.eof = false) (hrecv : w.env.rx.recv b.room = (.again, w'.env.rx))
      (heof' : w'.c.read.eof = false) (hbuf : w'.nc.buf = some b)
  | error (b : Buf) (hb : w.Target size b) (hn : n = NGX_ERROR)
      (heof : w.c.read.eof = false) (hrecv : w.env.rx.recv b.room = (.error, w'.env.rx))
  | closed (b : Buf) (hb : w.Target size b) (hn : n = 0)
      (heof : w.c.read.eof = false) (hrecv : w.env.rx.recv b.room = (.eof, w'.env.rx))
      (hlog : .recv part b.room 0 [] ∈ w'.trace)
  | data (b : Buf) (got : List UInt8) (hb : w.Target size b) (hn : n = got.length)
      (hpos : 0 < got.length) (hle : got.length ≤ b.room)
      (heof : w.c.read.eof = false) (hrecv : w.env.rx.recv b.room = (.data got, w'.env.rx))
      (heof' : w'.c.read.eof = false)
      (hbuf : w'.nc.buf = some { b with bytes := b.bytes ++ got })
      (hallocs : w'.env.allocs = w.allocs_left)
      (hlog : .recv part b.room n got ∈ w'.trace)

theorem fill_buf_cases {w w' : Endpoint S} {part : Part} {b : Buf} {n : Int} (size : Nat)
    (hb : w.nc.buf = some b) (h : w.fill_buf part b = (n, w')) :
    DataFrame w w' ∧ DataOutcome part size w w' n := by
  simp only [fill_buf] at h
  have hallocs : w.allocs_left = w.env.allocs := by rw [allocs_left, hb]
  replace hb : w.Target size b := .inl hb
  have hset : DataFrame w (w.setBuf (some b)) := ⟨w.reads_setBuf _, rfl, rfl, rfl, rfl, rfl, rfl⟩
  by_cases hroom : b.room = 0
  · rw [if_pos hroom] at h
    cases h
    exact ⟨hset, .full b hb rfl hroom⟩
  rw [if_neg hroom] at h
  have hroom : 0 < b.room := Nat.pos_of_ne_zero hroom
  rcases heof : w.c.read.eof with _ | _
  · rw [if_neg (by simp [setBuf, heof])] at h
    rcases hrecv : w.env.rx.recv b.room with ⟨answer, rx⟩
    obtain ⟨v, hv, hrx, hnc, heof', htrace, hthe⟩ :=
      recv_spec (w := w.setBuf (some b)) part rfl hrecv
    have hdata : DataFrame w v := by
      rw [hthe]
      exact ⟨hset.reads.trans (reads_recv _ _ _), rfl, rfl, rfl, rfl, read_handler_recv _ _ _, rfl⟩
    rw [hv] at h
    have heof' : v.c.read.eof = (w.c.read.afterRecv answer).eof := heof'
    rw [← hrx] at hrecv
    cases answer with
    | data got =>
      obtain ⟨hpos, hle⟩ := Net.length_of_recv_data hroom hrecv
      rw [if_pos (by simp [answerCode])] at h
      cases h
      refine ⟨⟨(hdata.reads.trans (reads_setBuf _ _)).trans (reads_setReadTimer _ _),
        hdata.neg_data, hdata.noise_msg, hdata.msg_num, hdata.last, hdata.read_handler,
        hdata.write_handler⟩,
        .data b got hb rfl hpos hle heof hrecv ?_ rfl ?_ ?_⟩
      · obtain ⟨x, xs, rfl⟩ := List.exists_cons_of_length_pos hpos
        exact heof'.trans heof
      · rw [hallocs]
        show v.env.allocs = _
        rw [hthe]
        rfl
      · show _ ∈ v.trace
        simp [htrace, answerCode, answerBytes]
    | again =>
      rw [if_neg (by simp [answerCode])] at h
      cases h
      exact ⟨hdata, .again b hb rfl hroom heof hrecv (heof'.trans heof) (by rw [hnc]; rfl)⟩
    | error =>
      rw [if_neg (by simp [answerCode])] at h
      cases h
      exact ⟨hdata, .error b hb rfl heof hrecv⟩
    | eof =>
      rw [if_pos (by simp [answerCode])] at h
      cases h
      refine ⟨⟨(hdata.reads.trans (reads_setBuf _ _)).trans (reads_setReadTimer _ _),
        hdata.neg_data, hdata.noise_msg, hdata.msg_num, hdata.last, hdata.read_handler,
        hdata.write_handler⟩,
        .closed b hb rfl heof hrecv ?_⟩
      show _ ∈ v.trace
      simp [htrace, answerCode, answerBytes]
  · rw [if_pos (by simpa [setBuf] using heof)] at h
    cases h
    exact ⟨hset, .known_eof b hb rfl hroom heof heof rfl⟩

theorem read_handshake_data_cases {w w' : Endpoint S} {part : Part} {size : Nat} {n : Int}
    (h : w.read_handshake_data part size = (n, w')) :
    DataFrame w w' ∧ DataOutcome part size w w' n := by
  unfold read_handshake_data at h
  rcases hbuf : w.nc.buf with _ | b
  · have hframe : DataFrame w w.ngx_alloc.2 := ⟨w.reads_alloc, rfl, rfl, rfl, rfl, rfl, rfl⟩
    simp only [hbuf] at h
    rcases halloc : (nextAnswer w.env.allocs).1 with _ | _
    · rw [if_neg (by simp [ngx_alloc, halloc])] at h
      cases h
      exact ⟨hframe, .no_buf rfl hbuf halloc⟩
    · rw [if_pos (by simp [ngx_alloc, halloc])] at h
      -- the buffer is new: the target of the filling is read off the state before it
      have hset : w.ngx_alloc.2.fill_buf part ⟨[], 0, size⟩ =
          (w.ngx_alloc.2.setBuf (some ⟨[], 0, size⟩)).fill_buf part ⟨[], 0, size⟩ := rfl
      rw [hset] at h
      obtain ⟨hfill, hout⟩ := fill_buf_cases size rfl h
      have hb : w.Target size ⟨[], 0, size⟩ := .inr ⟨hbuf, halloc, rfl⟩
      have hthe : ∀ {b}, (w.ngx_alloc.2.setBuf (some ⟨[], 0, size⟩)).Target size b →
          b = ⟨[], 0, size⟩ := by
        rintro b (hb | ⟨hb, -⟩)
        · simpa [setBuf] using hb.symm
        · simp [setBuf] at hb
      refine ⟨hframe.trans ⟨(reads_setBuf _ _).trans hfill.reads, hfill.neg_data, hfill.noise_msg,
        hfill.msg_num, hfill.last, hfill.read_handler, hfill.write_handler⟩, ?_⟩
      cases hout with
      | no_buf _ hnone => simp [setBuf] at hnone
      | full b hb' hn hroom =>
        obtain rfl := hthe hb'
        exact .full _ hb hn hroom
      | known_eof b hb' hn hroom heof heof' htimer =>
        obtain rfl := hthe hb'
        exact .known_eof _ hb hn hroom heof heof' htimer
      | again b hb' hn hroom heof hrecv heof' hnew =>
        obtain rfl := hthe hb'
        exact .again _ hb hn hroom heof hrecv heof' hnew
      | error b hb' hn heof hrecv =>
        obtain rfl := hthe hb'
        exact .error _ hb hn heof hrecv
      | closed b hb' hn heof hrecv hlog =>
        obtain rfl := hthe hb'
        exact .closed _ hb hn heof hrecv hlog
      | data b got hb' hn hpos hle heof hrecv heof' hnew hallocs hlog =>
        obtain rfl := hthe hb'
        refine .data _ got hb hn hpos hle heof hrecv heof' hnew ?_ hlog
        rw [hallocs, allocs_left, allocs_left, hbuf]
        rfl
  · simp only [hbuf] at h
    exact fill_buf_cases size hbuf h

end Endpoint

end ngx_nsoc
