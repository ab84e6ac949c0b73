import NoiseSocket.Handler.Spin
import NoiseSocket.Prologue.Negotiation

open Exec Exec.Result

namespace ngx_nsoc

variable {S : Type}

/-- The bytes that an observation shows to have come in, each with the field it was read for. -/
def Obs.taken : Obs → List (Part × UInt8)
  | .recv part _ _ bytes => bytes.map (part, ·)
  | _ => []

/-- Everything that has come in on a connection, in order, each byte with the field it was read
for. -/
def taken : List Obs → List (Part × UInt8)
  | [] => []
  | o :: trace => taken trace ++ o.taken

@[simp]
theorem taken_cons (o : Obs) (trace : List Obs) : taken (o :: trace) = taken trace ++ o.taken := rfl

namespace Endpoint

/-- So much of a length has come in behind `earlier`, and the size field holds it. -/
inductive AtField (f : LenField) (earlier : List (Part × UInt8)) (w : Endpoint S) : Prop where
  | unset (hsize : w.nc.size f = .unset) (htaken : taken w.trace = earlier)
  | first (b0 : UInt8) (hsize : w.nc.size f = .first b0)
      (htaken : taken w.trace = earlier ++ [(f.part, b0)])

/-- The end of the reader of a length: a pause, two bytes, the end of the stream, or an error. -/
inductive FieldRead (f : LenField) (earlier : List (Part × UInt8)) (r : Int × Endpoint S) : Prop where
  | again (hn : r.1 = NGX_AGAIN) (hfield : AtField f earlier r.2)
  | known (hn : r.1 = NGX_OK) (b0 b1 : UInt8) (hsize : r.2.nc.size f = .known (be16 b0 b1))
      (htaken : taken r.2.trace = earlier ++ [(f.part, b0), (f.part, b1)])
  | closed (hn : r.1 = NGX_OK) (heof : r.2.c.read.eof = true)
  | error (hn : r.1 = NGX_ERROR)

/-- The loop of the reader holds as many bytes as have come in behind `earlier`. -/
structure Gathering (f : LenField) (earlier : List (Part × UInt8)) (x : List UInt8 × Endpoint S) :
    Prop where
  taken : taken x.2.trace = earlier ++ x.1.map (f.part, ·)
  short : x.1.length ≤ 1
  size : x.1 = [] → x.2.nc.size f = .unset

theorem read_len_body_gathering {f : LenField} {earlier : List (Part × UInt8)}
    {x : List UInt8 × Endpoint S}
    {flow : ControlFlow (List UInt8 × Endpoint S) (Int × Endpoint S)} (hx : Gathering f earlier x)
    (hflow : read_len_body f x = ok flow) :
    flow.Holds (Gathering f earlier) (FieldRead f earlier) := by
  obtain ⟨got, w⟩ := x
  obtain ⟨htaken, hshort, hsize⟩ := hx
  simp only at htaken hshort hsize
  simp only [read_len_body] at hflow
  have hrecv := w.ngx_recv_reception f.part (NGX_NSOC_LEN_FIELD_SIZE - got.length)
  have hadds : taken (w.ngx_recv f.part (NGX_NSOC_LEN_FIELD_SIZE - got.length)).2.2.trace =
      taken w.trace ++
        (w.ngx_recv f.part (NGX_NSOC_LEN_FIELD_SIZE - got.length)).2.1.map (f.part, ·) := rfl
  generalize w.ngx_recv f.part (NGX_NSOC_LEN_FIELD_SIZE - got.length) = r at hflow hrecv hadds
  obtain ⟨n, bytes, v⟩ := r
  dsimp only at hflow hrecv hadds
  have hall : taken v.trace = earlier ++ (got ++ bytes).map (f.part, ·) := by
    rw [hadds, htaken, List.append_assoc, List.map_append]
  by_cases hpos : 0 < n
  · rw [if_pos hpos] at hflow
    have hcount := hrecv.count (Int.le_of_lt hpos)
    have hle := hrecv.le
    split at hflow
    · rename_i b0 b1 hboth
      cases hflow
      refine .known rfl b0 b1 (NoiseConnection.size_setSize _ _ _) ?_
      rw [hboth] at hall
      exact hall
    · rename_i hother
      cases hflow
      have hone : (got ++ bytes).length = 1 := by
        have htwo : (got ++ bytes).length ≠ 2 := by
          intro h
          obtain ⟨b0, b1, hboth⟩ := List.length_eq_two.mp h
          exact hother b0 b1 hboth
        simp only [List.length_append, NGX_NSOC_LEN_FIELD_SIZE] at htwo hle ⊢
        omega
      refine ⟨hall, Nat.le_of_eq hone, fun hnil => ?_⟩
      simp only at hnil
      rw [hnil] at hone
      cases hone
  · rw [if_neg hpos] at hflow
    have hbytes : bytes = [] := hrecv.none (by omega)
    rw [hbytes, List.append_nil] at hall
    by_cases hagain : NGX_NSOC_LEN_FIELD_SIZE - got.length = 1 ∧ n = NGX_AGAIN
    · rw [if_pos hagain] at hflow
      cases hflow
      obtain ⟨b0, rfl⟩ : ∃ b0, got = [b0] := List.length_eq_one_iff.mp (by
        have hlen := hagain.1
        simp only [NGX_NSOC_LEN_FIELD_SIZE] at hlen
        omega)
      exact .again rfl (.first b0 (NoiseConnection.size_setSize _ _ _) hall)
    · rw [if_neg hagain] at hflow
      by_cases hn : n = NGX_AGAIN
      · rw [if_neg (not_not.mpr hn)] at hflow
        cases hflow
        have hnil : got = [] := by
          refine List.eq_nil_of_length_eq_zero ?_
          have hne : NGX_NSOC_LEN_FIELD_SIZE - got.length ≠ 1 := fun h => hagain ⟨h, hn⟩
          simp only [NGX_NSOC_LEN_FIELD_SIZE] at hne
          omega
        refine .again hn (.unset ?_ ?_)
        · have hunset : v.nc.size f = .unset := by
            rw [hrecv.nc]
            exact hsize hnil
          simp only [setSize, NoiseConnection.size_setSize, hunset, SizeField.stop_reading]
        · rw [hnil, List.map_nil, List.append_nil] at hall
          exact hall
      · rw [if_pos hn] at hflow
        cases hflow
        by_cases hzero : n = 0
        · exact .closed hzero (hrecv.eof hzero)
        · obtain hcode | hcode := hrecv.code (by omega)
          · exact absurd hcode hn
          · exact .error hcode

/-- The reader of a length, from its first byte or its second one on. -/
theorem AtField.read_len {f : LenField} {earlier : List (Part × UInt8)} {w : Endpoint S}
    (hw : AtField f earlier w) {fuel : Nat} {r : Int × Endpoint S} (hr : w.read_len f fuel = ok r) :
    FieldRead f earlier r := by
  have hloop : ∀ x : List UInt8 × Endpoint S, Gathering f earlier x →
      loop (read_len_body f) fuel x = ok r → FieldRead f earlier r := by
    intro x hx hloop
    refine loop_invariant (Gathering f earlier) (FieldRead f earlier) ?_ ?_ hx hloop
    · exact fun x next hx hnext => read_len_body_gathering hx hnext
    · exact fun x value hx hvalue => read_len_body_gathering hx hvalue
  cases hw with
  | unset hsize htaken =>
    simp only [Endpoint.read_len, hsize] at hr
    refine hloop ([], w.setSize f .unset) ⟨?_, Nat.zero_le 1, fun _ => ?_⟩ hr
    · rw [List.map_nil, List.append_nil]
      exact htaken
    · simp only [setSize, NoiseConnection.size_setSize]
  | first b0 hsize htaken =>
    simp only [Endpoint.read_len, hsize] at hr
    exact hloop ([b0], w) ⟨htaken, Nat.le_refl 1, fun hnil => (by cases hnil)⟩ hr

/-- What the one socket read of a part of `size` bytes delivers. -/
def part_got (w : Endpoint S) (size : Nat) : List UInt8 :=
  match w.target size with
  | none => []
  | some b => if b.room = 0 ∨ w.c.read.eof = true then [] else answerBytes (w.env.rx.recv b.room).1

theorem taken_fill_buf (w : Endpoint S) (part : Part) (b : Buf) :
    taken (w.fill_buf part b).2.trace = taken w.trace ++
      (if b.room = 0 ∨ w.c.read.eof = true then [] else answerBytes (w.env.rx.recv b.room).1).map
        (part, ·) := by
  have heof : (w.setBuf (some b)).c.read.eof = w.c.read.eof := rfl
  simp only [fill_buf, heof]
  by_cases hroom : b.room = 0
  · rw [if_pos hroom, if_pos (.inl hroom), List.map_nil, List.append_nil]
    rfl
  by_cases hend : w.c.read.eof = true
  · rw [if_neg hroom, if_pos hend, if_pos (.inr hend), List.map_nil, List.append_nil]
    rfl
  have hgoes : ¬(b.room = 0 ∨ w.c.read.eof = true) := not_or.mpr ⟨hroom, hend⟩
  rw [if_neg hroom, if_neg hend, if_neg hgoes]
  split_ifs <;> rfl

theorem taken_read_handshake_data (w : Endpoint S) (part : Part) (size : Nat) :
    taken (w.read_handshake_data part size).2.trace =
      taken w.trace ++ (w.part_got size).map (part, ·) := by
  unfold read_handshake_data part_got target
  cases hbuf : w.nc.buf with
  | some b => exact w.taken_fill_buf part b
  | none =>
    dsimp only
    cases halloc : (nextAnswer w.env.allocs).1 with
    | false =>
      have hrefused : w.ngx_alloc.1 = false := halloc
      simp only [hrefused, Bool.false_eq_true, if_false, List.map_nil, List.append_nil]
      rfl
    | true =>
      have hgranted : w.ngx_alloc.1 = true := halloc
      simp only [hgranted, if_true]
      exact taken_fill_buf _ part ⟨[], 0, size⟩

/-- A part adds what its socket read delivers to what has come in. -/
theorem taken_read_part (w : Endpoint S) (part : Part) {size : Nat} (hsize : size ≠ 0) :
    taken (w.read_part part size).2.trace = taken w.trace ++ (w.part_got size).map (part, ·) := by
  rw [← w.taken_read_handshake_data part size, read_part_eq hsize]
  split_ifs
  · rw [(read_finish_rests _ _ _).1.trace]
  · rw [(read_again_rests _).1.trace]
  · rfl

/-- A buffer that a part was read into stands where the old one stood, or at its beginning. -/
theorem pos_read_part {w : Endpoint S} {part : Part} {size : Nat} {b : Buf}
    (hpos : ∀ b, w.nc.buf = some b → b.pos = 0)
    (hb : (w.read_part part size).2.nc.buf = some b) : b.pos = 0 := by
  by_cases hsize : size = 0
  · rw [hsize, read_part_zero] at hb
    exact hpos b hb
  have hfill : ∀ {v : Endpoint S} {b' : Buf}, b'.pos = 0 →
      (v.fill_buf part b').2.nc.buf = some b → b.pos = 0 := by
    intro v b' hb' hbuf
    obtain ⟨bytes, hfilled⟩ := v.fill_buf_filled part b'
    rw [hfilled.buf] at hbuf
    cases hbuf
    exact hb'
  have hdata : (w.read_handshake_data part size).2.nc.buf = some b := by
    rw [read_part_eq hsize] at hb
    split_ifs at hb
    · rwa [(read_finish_rests _ _ _).1.buf] at hb
    · rwa [(read_again_rests _).1.buf] at hb
    · exact hb
  unfold read_handshake_data at hdata
  cases hbuf : w.nc.buf with
  | some b' =>
    rw [hbuf] at hdata
    exact hfill (hpos b' hbuf) hdata
  | none =>
    simp only [hbuf] at hdata
    split_ifs at hdata
    · exact hfill rfl hdata
    · have hnone : w.ngx_alloc.2.nc.buf = none := hbuf
      rw [hnone] at hdata
      cases hdata

end Endpoint

end ngx_nsoc
