import NoiseSocket.Prologue.Received

open Exec Exec.Result

namespace ngx_nsoc

variable {S : Type}

namespace Endpoint

/-- The handshake buffer has been filled, with the return value `n`. -/
structure Filled (w : Endpoint S) (b : Buf) (n : Int) (bytes : List UInt8) (v : Endpoint S) :
    Prop where
  adds : received v.trace = received w.trace ++ bytes
  buf : v.nc.buf = some { b with bytes := b.bytes ++ bytes }
  le : bytes.length ≤ b.room
  count : 0 ≤ n → n = bytes.length
  none : n < 0 → bytes = []
  code : 0 ≤ n ∨ n = NGX_AGAIN ∨ n = NGX_ERROR

theorem fill_buf_filled (w : Endpoint S) (part : Part) (b : Buf) :
    ∃ bytes, Filled w b (w.fill_buf part b).1 bytes (w.fill_buf part b).2 := by
  have hnothing : (b.bytes ++ ([] : List UInt8)) = b.bytes := List.append_nil _
  simp only [fill_buf]
  split
  · exact ⟨[], (List.append_nil _).symm, by rw [hnothing]; rfl, Nat.zero_le _, by simp, by simp, by simp⟩
  split
  · exact ⟨[], (List.append_nil _).symm, by rw [hnothing]; rfl, Nat.zero_le _, by simp, by simp, by simp⟩
  have hrecv := (w.setBuf (some b)).ngx_recv_reception part b.room
  generalize (w.setBuf (some b)).ngx_recv part b.room = r at hrecv ⊢
  obtain ⟨n, bytes, v⟩ := r
  dsimp only at hrecv ⊢
  by_cases hn : 0 ≤ n
  · rw [if_pos hn]
    exact ⟨bytes, hrecv.adds, rfl, hrecv.le, hrecv.count, fun h => absurd h (by omega), .inl hn⟩
  · rw [if_neg hn]
    obtain rfl : bytes = [] := hrecv.none (by omega)
    refine ⟨[], hrecv.adds, ?_, Nat.zero_le _, fun h => absurd h hn, fun _ => rfl,
      .inr (hrecv.code (by omega))⟩
    rw [hrecv.nc, hnothing]
    rfl

/-- The exits of the reader behind its loop do not touch what has come in. -/
structure Rests (w v : Endpoint S) : Prop where
  trace : v.trace = w.trace
  buf : v.nc.buf = w.nc.buf
  neg_data : v.nc.neg_data = w.nc.neg_data
  eof : v.c.read.eof = w.c.read.eof

theorem read_again_rests (w : Endpoint S) :
    Rests w w.read_again.2 ∧ (w.read_again.1 = NGX_AGAIN ∨ w.read_again.1 = NGX_ERROR) := by
  simp only [read_again]
  split
  · exact ⟨⟨rfl, rfl, rfl, rfl⟩, .inr rfl⟩
  · exact ⟨⟨rfl, rfl, rfl, rfl⟩, .inl rfl⟩

theorem read_finish_rests (w : Endpoint S) (n : Int) (size : Nat) :
    Rests w (w.read_finish n size).2 ∧ (((w.read_finish n size).1 = NGX_AGAIN ∨
      (w.read_finish n size).1 = NGX_ERROR) ∨ (w.read_finish n size).1 = n ∧ (size : Int) ≤ n) := by
  simp only [read_finish]
  split
  · split
    · exact ⟨⟨rfl, rfl, rfl, rfl⟩, .inl (.inr rfl)⟩
    · exact ⟨⟨rfl, rfl, rfl, rfl⟩, .inl (.inl rfl)⟩
  · exact ⟨⟨rfl, rfl, rfl, rfl⟩, .inr ⟨rfl, by omega⟩⟩

/-- A server that has not got the negotiation data of the first message yet. With the reply
to a message of another version in its buffer it will not get it any more. -/
inductive Waiting (w : Endpoint S) : Prop where
  | length (hlength : w.AtLength) (hbuf : w.nc.buf = none)
  | empty (hsize : w.nc.neg_data = .known NGX_NSOC_1MSG_NEG_DATA_SIZE)
      (hreceived : received w.trace = neg_len_bytes) (hbuf : w.nc.buf = none)
  | data (hsize : w.nc.neg_data = .known NGX_NSOC_1MSG_NEG_DATA_SIZE) (b : Buf)
      (hbuf : w.nc.buf = some b) (hreceived : received w.trace = neg_len_bytes ++ b.bytes)
      (hcap : b.cap = NGX_NSOC_1MSG_NEG_DATA_SIZE)
  | closed (hsize : w.nc.neg_data = .known NGX_NSOC_1MSG_NEG_DATA_SIZE)
      (heof : w.c.read.eof = true)
  | refused (hsize : w.nc.neg_data = .known NGX_NSOC_1MSG_NEG_DATA_SIZE) (b : Buf)
      (hbuf : w.nc.buf = some b) (herr : err_message <+: b.bytes)

theorem Waiting.congr {w v : Endpoint S} (hw : w.Waiting) (h : Rests w v) : v.Waiting := by
  obtain ⟨htrace, hbuf, hsize, heof⟩ := h
  cases hw with
  | length hlength hnone => exact .length (hlength.congr hsize (by rw [htrace])) (hbuf.trans hnone)
  | empty hknown hreceived hnone => exact .empty (hsize.trans hknown) (by rw [htrace]; exact hreceived) (hbuf.trans hnone)
  | data hknown b hsome hreceived hcap =>
    exact .data (hsize.trans hknown) b (hbuf.trans hsome) (by rw [htrace]; exact hreceived) hcap
  | closed hknown hclosed => exact .closed (hsize.trans hknown) (heof.trans hclosed)
  | refused hknown b hsome herr => exact .refused (hsize.trans hknown) b (hbuf.trans hsome) herr

/-- What the reader of the negotiation data ends with: it waits or fails, or all of the data
has come in, by one read, or it is taken for what has come in behind the reply to a message
of another version. -/
inductive Negotiated (r : Int × Endpoint S) : Prop where
  | waits (hn : r.1 = NGX_AGAIN) (hwaiting : r.2.Waiting)
  | failed (hn : r.1 = NGX_ERROR)
  | complete (hn : 0 < r.1) (hsize : r.2.nc.neg_data = .known NGX_NSOC_1MSG_NEG_DATA_SIZE) (b : Buf)
      (hbuf : r.2.nc.buf = some b) (hlength : b.bytes.length = NGX_NSOC_1MSG_NEG_DATA_SIZE)
      (hreceived : received r.2.trace = neg_len_bytes ++ b.bytes)
  | refused (hn : 0 < r.1) (hsize : r.2.nc.neg_data = .known NGX_NSOC_1MSG_NEG_DATA_SIZE) (b : Buf)
      (hbuf : r.2.nc.buf = some b) (herr : err_message <+: b.bytes)

theorem read_part_eq {w : Endpoint S} {part : Part} {size : Nat} (hsize : size ≠ 0) :
    w.read_part part size =
      if 0 ≤ (w.read_handshake_data part size).1 then
        (w.read_handshake_data part size).2.read_finish (w.read_handshake_data part size).1 size
      else if (w.read_handshake_data part size).1 = NGX_AGAIN then
        (w.read_handshake_data part size).2.read_again
      else w.read_handshake_data part size := by
  simp only [read_part, if_pos hsize]

/-- A part behind its buffer: `hshort` says what a read of too little leaves. -/
theorem negotiated_of_read {w v : Endpoint S} {n : Int} {r : Int × Endpoint S} {part : Part}
    (hdata : w.read_handshake_data part NGX_NSOC_1MSG_NEG_DATA_SIZE = (n, v))
    (hr : r = w.read_part part NGX_NSOC_1MSG_NEG_DATA_SIZE)
    (hn : 0 ≤ n ∨ n = NGX_AGAIN ∨ n = NGX_ERROR)
    (hshort : n < NGX_NSOC_1MSG_NEG_DATA_SIZE → n ≠ NGX_ERROR → v.Waiting)
    (hall : NGX_NSOC_1MSG_NEG_DATA_SIZE ≤ n → Negotiated (n, v)) : Negotiated r := by
  rw [read_part_eq (by decide), hdata] at hr
  dsimp only at hr
  obtain hn | rfl | rfl := hn
  · rw [if_pos hn] at hr
    obtain ⟨hrests, hcode⟩ := v.read_finish_rests n NGX_NSOC_1MSG_NEG_DATA_SIZE
    obtain (hagain | herror) | ⟨hcount, hle⟩ := hcode
    · by_cases hlt : n < NGX_NSOC_1MSG_NEG_DATA_SIZE
      · refine .waits (by rw [hr, hagain]) ?_
        rw [hr]
        exact (hshort hlt (by simp only [NGX_ERROR]; omega)).congr hrests
      · have heq : v.read_finish n NGX_NSOC_1MSG_NEG_DATA_SIZE = (n, v) := read_finish_of_le (by omega)
        rw [hr, heq]
        exact hall (by omega)
    · exact .failed (by rw [hr, herror])
    · have heq := read_finish_of_le (w := v) hle
      rw [hr, heq]
      exact hall hle
  · rw [if_neg (by decide), if_pos rfl] at hr
    obtain ⟨hrests, hcode | hcode⟩ := v.read_again_rests
    · refine .waits (by rw [hr, hcode]) ?_
      rw [hr]
      exact (hshort (by decide) (by decide)).congr hrests
    · exact .failed (by rw [hr, hcode])
  · rw [if_neg (by decide), if_neg (by decide)] at hr
    exact .failed (by rw [hr])

theorem Filled.frame {w : Endpoint S} {part : Part} {b : Buf} :
    (w.fill_buf part b).2.nc.neg_data = w.nc.neg_data := by
  simp only [fill_buf]
  split
  · rfl
  split
  · rfl
  split <;> rfl

/-- A read into a buffer of the size of the negotiation data. -/
theorem Filled.negotiated {w v : Endpoint S} {b : Buf} {n : Int} {bytes : List UInt8}
    (h : Filled w b n bytes v) (hsize : v.nc.neg_data = .known NGX_NSOC_1MSG_NEG_DATA_SIZE)
    (hreceived : received w.trace = neg_len_bytes ++ b.bytes)
    (hcap : b.cap = NGX_NSOC_1MSG_NEG_DATA_SIZE) :
    v.Waiting ∧ (NGX_NSOC_1MSG_NEG_DATA_SIZE ≤ n → Negotiated (n, v)) := by
  have hall : received v.trace = neg_len_bytes ++ (b.bytes ++ bytes) := by
    rw [h.adds, hreceived, List.append_assoc]
  refine ⟨.data hsize _ h.buf hall hcap, fun hn => ?_⟩
  have hcount := h.count (by omega)
  have hle := h.le
  simp only [Buf.room, hcap, NGX_NSOC_1MSG_NEG_DATA_SIZE] at hle hn
  refine .complete (by simp only; omega) hsize _ h.buf ?_ hall
  simp only [List.length_append, NGX_NSOC_1MSG_NEG_DATA_SIZE]
  omega

theorem read_handshake_data_some {w : Endpoint S} {part : Part} {size : Nat} {b : Buf}
    (hbuf : w.nc.buf = some b) : w.read_handshake_data part size = w.fill_buf part b := by
  simp only [read_handshake_data, hbuf]

theorem Waiting.read_part {w : Endpoint S} (hw : w.Waiting)
    (hsize : w.nc.neg_data = .known NGX_NSOC_1MSG_NEG_DATA_SIZE) {part : Part} {r : Int × Endpoint S}
    (hr : r = w.read_part part NGX_NSOC_1MSG_NEG_DATA_SIZE) : Negotiated r := by
  cases hw with
  | length hlength _ =>
    cases hlength with
    | unset hneg _ =>
      rw [hsize] at hneg
      cases hneg
    | first b0 hneg _ =>
      rw [hsize] at hneg
      cases hneg
  | empty _ hreceived hbuf =>
    by_cases hgranted : w.ngx_alloc.1 = true
    · have hdata : w.read_handshake_data part NGX_NSOC_1MSG_NEG_DATA_SIZE =
          w.ngx_alloc.2.fill_buf part ⟨[], 0, NGX_NSOC_1MSG_NEG_DATA_SIZE⟩ := by
        simp only [read_handshake_data, hbuf]
        exact if_pos hgranted
      obtain ⟨bytes, hfilled⟩ := w.ngx_alloc.2.fill_buf_filled part ⟨[], 0, NGX_NSOC_1MSG_NEG_DATA_SIZE⟩
      have hreceived' : received w.ngx_alloc.2.trace = neg_len_bytes ++ [] := by
        rw [List.append_nil]
        exact hreceived
      obtain ⟨hwaiting, hall⟩ := hfilled.negotiated (Filled.frame.trans hsize) hreceived' rfl
      exact negotiated_of_read hdata hr hfilled.code (fun _ _ => hwaiting) hall
    · have hdata : w.read_handshake_data part NGX_NSOC_1MSG_NEG_DATA_SIZE =
          (NGX_ERROR, w.ngx_alloc.2) := by
        simp only [read_handshake_data, hbuf]
        exact if_neg hgranted
      exact negotiated_of_read hdata hr (.inr (.inr rfl)) (fun _ h => absurd rfl h) (by simp)
  | data _ b hbuf hreceived hcap =>
    obtain ⟨bytes, hfilled⟩ := w.fill_buf_filled part b
    obtain ⟨hwaiting, hall⟩ := hfilled.negotiated (Filled.frame.trans hsize) hreceived hcap
    exact negotiated_of_read (read_handshake_data_some hbuf) hr hfilled.code (fun _ _ => hwaiting) hall
  | closed _ heof =>
    obtain ⟨hframe, houtcome⟩ :=
      @read_handshake_data_cases _ w _ part NGX_NSOC_1MSG_NEG_DATA_SIZE _ rfl
    have hclosed : ∀ {n : Int}, n = 0 ∨ n = NGX_ERROR → 0 ≤ n ∨ n = NGX_AGAIN ∨ n = NGX_ERROR := by
      simp only [NGX_ERROR, NGX_AGAIN]
      omega
    cases houtcome with
    | no_buf hn _ _ | full _ _ hn _ =>
      exact negotiated_of_read (Prod.ext hn rfl) hr (.inr (.inr rfl)) (fun _ h => absurd rfl h) (by simp)
    | known_eof _ _ hn _ _ heof' _ =>
      exact negotiated_of_read (Prod.ext hn rfl) hr (.inl (Int.le_refl 0))
        (fun _ _ => .closed (hframe.neg_data.trans hsize) heof') (by simp)
    | again _ _ _ _ hopen | error _ _ _ hopen | closed _ _ _ hopen | data _ _ _ _ _ _ hopen =>
      rw [heof] at hopen
      cases hopen
  | refused _ b hbuf herr =>
    obtain ⟨bytes, hfilled⟩ := w.fill_buf_filled part b
    have herr' : err_message <+: b.bytes ++ bytes := herr.trans (List.prefix_append _ _)
    exact negotiated_of_read (read_handshake_data_some hbuf) hr hfilled.code
      (fun _ _ => .refused (Filled.frame.trans hsize) _ hfilled.buf herr')
      (fun hn => .refused (by simp only [NGX_NSOC_1MSG_NEG_DATA_SIZE] at hn ⊢; omega)
        (Filled.frame.trans hsize) _ hfilled.buf herr')

/-- `ngx_nsoc_read_negotiation` for the first message. -/
theorem Waiting.read_negotiation {w : Endpoint S} (hw : w.Waiting) {fuel : Nat} {r : Int × Endpoint S}
    (hr : w.read_negotiation fuel NGX_NSOC_1MSG_NEG_DATA_SIZE = ok r) : Negotiated r := by
  have hbody : ∀ (v : Endpoint S) flow, v.Waiting →
      v.read_negotiation_body fuel NGX_NSOC_1MSG_NEG_DATA_SIZE = ok flow →
      flow.Holds Waiting Negotiated := by
    intro v flow hv hflow
    obtain hsize | ⟨size, hsize⟩ := v.nc.neg_data.incomplete_or
    · obtain ⟨hlength, hbuf⟩ : v.AtLength ∧ v.nc.buf = none := by
        cases hv with
        | length hlength hbuf => exact ⟨hlength, hbuf⟩
        | empty hknown | data hknown | closed hknown | refused hknown =>
          simp [hknown, SizeField.incomplete] at hsize
      rw [read_negotiation_body_of_incomplete _ _ hsize, bind_eq_ok_iff] at hflow
      obtain ⟨q, hlen, hflow⟩ := hflow
      have hhooked : v.Hooked.AtLength := hlength.congr rfl rfl
      have hread := hhooked.read_len hbuf hlen
      generalize v.Hooked = u at hlen hread
      obtain ⟨n, u'⟩ := q
      dsimp only at hflow
      cases hread with
      | again hn hlength' hbuf' =>
        rw [if_pos hn] at hflow
        cases hflow
        obtain ⟨hrests, hcode | hcode⟩ := u'.read_again_rests
        · exact .waits hcode ((Waiting.length hlength' hbuf').congr hrests)
        · exact .failed hcode
      | known hn b0 b1 hsize' hreceived' hbuf' =>
        replace hn : n = NGX_OK := hn
        subst hn
        rw [if_neg (by decide), if_pos (by decide)] at hflow
        split at hflow
        · rename_i hsix
          cases hflow
          dsimp only at hsize'
          have hbe : be16 b0 b1 = NGX_NSOC_1MSG_NEG_DATA_SIZE := by
            simpa [hsize', SizeField.recv_size] using hsix
          refine Waiting.empty (hsize'.trans (by rw [hbe])) ?_ hbuf'
          simp only [log, received_cons, Obs.bytes, List.append_nil]
          exact hreceived'.trans (be16_eq_six hbe)
        · cases hflow
          exact .failed rfl
      | closed hn heof hfirst =>
        replace hn : n = NGX_OK := hn
        subst hn
        rw [if_neg (by decide), if_pos (by decide)] at hflow
        split at hflow
        · rename_i hsix
          cases hflow
          refine Waiting.closed ?_ heof
          dsimp only at hfirst
          show u'.nc.neg_data = _
          cases hknown : u'.nc.neg_data with
          | unset => simp [hknown, SizeField.recv_size] at hsix
          | first b0 => exact absurd hknown (hfirst b0)
          | known size => simpa [hknown, SizeField.recv_size] using hsix
        · cases hflow
          exact .failed rfl
      | error hn =>
        replace hn : n = NGX_ERROR := hn
        subst hn
        rw [if_neg (by decide), if_neg (by decide)] at hflow
        cases hflow
        exact .failed rfl
    · have hknown : v.nc.neg_data = .known NGX_NSOC_1MSG_NEG_DATA_SIZE := by
        cases hv with
        | length hlength _ =>
          cases hlength with
          | unset hneg _ | first _ hneg _ =>
            rw [hsize] at hneg
            cases hneg
        | empty hknown | data hknown | closed hknown | refused hknown => exact hknown
      rw [read_negotiation_body_of_known hknown] at hflow
      cases hflow
      exact hv.read_part hknown rfl
  refine loop_invariant Waiting Negotiated ?_ ?_ hw hr
  · exact fun v next hv hnext => hbody v _ hv hnext
  · exact fun v value hv hvalue => hbody v _ hv hvalue

end Endpoint

end ngx_nsoc
