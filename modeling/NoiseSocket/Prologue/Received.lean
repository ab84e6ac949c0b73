import NoiseSocket.Handler.Handshake.Phases

open Exec Exec.Result

namespace ngx_nsoc

variable {S : Type}

/-- The bytes that an observation shows to have come in. -/
def Obs.bytes : Obs → List UInt8
  | .recv _ _ _ bytes => bytes
  | _ => []

/-- Everything that has come in on a connection, in order. -/
def received : List Obs → List UInt8
  | [] => []
  | o :: trace => received trace ++ o.bytes

@[simp]
theorem received_nil : received [] = [] := rfl

@[simp]
theorem received_cons (o : Obs) (trace : List Obs) :
    received (o :: trace) = received trace ++ o.bytes := rfl

theorem received_append (later earlier : List Obs) :
    received (later ++ earlier) = received earlier ++ received later := by
  induction later with
  | nil => simp
  | cons o later ih => simp [ih]

/-- The value `NGX_NSOC_1MSG_NEG_DATA_SIZE` in front of the negotiation data. -/
def neg_len_bytes : List UInt8 := [0x00, 0x06]

theorem be16_eq_six {b0 b1 : UInt8} (h : be16 b0 b1 = NGX_NSOC_1MSG_NEG_DATA_SIZE) :
    [b0, b1] = neg_len_bytes := by
  have h0 := b0.toNat_lt
  have h1 := b1.toNat_lt
  simp only [be16, NGX_NSOC_1MSG_NEG_DATA_SIZE] at h
  have hb0 : b0 = 0x00 := UInt8.toNat_inj.mp (show b0.toNat = 0 by omega)
  have hb1 : b1 = 0x06 := UInt8.toNat_inj.mp (show b1.toNat = 6 by omega)
  rw [hb0, hb1]
  rfl

theorem SizeField.stop_reading_ne_first (size : SizeField) (b0 : UInt8) :
    size.stop_reading ≠ .first b0 := by
  cases size <;> simp [stop_reading]

namespace Endpoint

/-- A socket read, with its return value `n`. -/
structure Reception (w : Endpoint S) (size : Nat) (n : Int) (bytes : List UInt8) (v : Endpoint S) :
    Prop where
  adds : received v.trace = received w.trace ++ bytes
  nc : v.nc = w.nc
  le : bytes.length ≤ size
  count : 0 ≤ n → n = bytes.length
  none : n ≤ 0 → bytes = []
  eof : n = 0 → v.c.read.eof = true
  code : n < 0 → n = NGX_AGAIN ∨ n = NGX_ERROR

theorem ngx_recv_reception (w : Endpoint S) (part : Part) (size : Nat) :
    Reception w size (w.ngx_recv part size).1 (w.ngx_recv part size).2.1
      (w.ngx_recv part size).2.2 := by
  rcases hrecv : w.env.rx.recv size with ⟨answer, rx⟩
  have hrest : received (w.ngx_recv part size).2.2.trace =
      received w.trace ++ (w.ngx_recv part size).2.1 := rfl
  refine ⟨hrest, rfl, ?_, ?_, ?_, ?_, ?_⟩
  all_goals simp only [ngx_recv, hrecv]
  all_goals cases answer with
    | data got =>
      have hle := Net.length_le_of_recv_data hrecv
      simp_all [answerCode, answerBytes, Event.afterRecv]
    | eof => simp [answerCode, answerBytes, Event.afterRecv]
    | again => simp [answerCode, answerBytes]
    | error => simp [answerCode, answerBytes]

/-- The first byte of the length may have come in, and nothing else. -/
inductive AtLength (w : Endpoint S) : Prop where
  | unset (hsize : w.nc.neg_data = .unset) (hreceived : received w.trace = [])
  | first (b0 : UInt8) (hsize : w.nc.neg_data = .first b0) (hreceived : received w.trace = [b0])

theorem AtLength.congr {w w' : Endpoint S} (h : w.AtLength) (hsize : w'.nc.neg_data = w.nc.neg_data)
    (htrace : received w'.trace = received w.trace) : w'.AtLength := by
  cases h with
  | unset hneg hreceived => exact .unset (hsize.trans hneg) (htrace.trans hreceived)
  | first b0 hneg hreceived => exact .first b0 (hsize.trans hneg) (htrace.trans hreceived)

/-- The end of the reader of the length: a pause, two bytes, the end of the stream, or an
error. -/
inductive LengthRead (r : Int × Endpoint S) : Prop where
  | again (hn : r.1 = NGX_AGAIN) (hlength : r.2.AtLength) (hbuf : r.2.nc.buf = none)
  | known (hn : r.1 = NGX_OK) (b0 b1 : UInt8) (hsize : r.2.nc.neg_data = .known (be16 b0 b1))
      (hreceived : received r.2.trace = [b0, b1]) (hbuf : r.2.nc.buf = none)
  | closed (hn : r.1 = NGX_OK) (heof : r.2.c.read.eof = true)
      (hsize : ∀ b0, r.2.nc.neg_data ≠ .first b0)
  | error (hn : r.1 = NGX_ERROR)

/-- The loop of the reader holds as many bytes as have come in. -/
structure Holding (x : List UInt8 × Endpoint S) : Prop where
  received : received x.2.trace = x.1
  short : x.1.length ≤ 1
  size : x.1 = [] → x.2.nc.neg_data = .unset
  buf : x.2.nc.buf = none

theorem read_len_body_holding {x : List UInt8 × Endpoint S}
    {flow : ControlFlow (List UInt8 × Endpoint S) (Int × Endpoint S)} (hx : Holding x)
    (hflow : read_len_body .neg_data x = ok flow) : flow.Holds Holding LengthRead := by
  obtain ⟨got, w⟩ := x
  obtain ⟨hreceived, hshort, hsize, hbuf⟩ := hx
  simp only at hreceived hshort hsize hbuf
  simp only [read_len_body] at hflow
  have hrecv := w.ngx_recv_reception LenField.neg_data.part (NGX_NSOC_LEN_FIELD_SIZE - got.length)
  generalize w.ngx_recv LenField.neg_data.part (NGX_NSOC_LEN_FIELD_SIZE - got.length) = r at hflow hrecv
  obtain ⟨n, bytes, v⟩ := r
  dsimp only at hflow hrecv
  have hall : received v.trace = got ++ bytes := by rw [hrecv.adds, hreceived]
  have hnone : v.nc.buf = none := by rw [hrecv.nc, hbuf]
  by_cases hpos : 0 < n
  · rw [if_pos hpos] at hflow
    have hcount := hrecv.count (Int.le_of_lt hpos)
    have hle := hrecv.le
    split at hflow
    · rename_i b0 b1 hboth
      cases hflow
      exact .known rfl b0 b1 rfl (hall.trans hboth) hnone
    · rename_i hother
      cases hflow
      have hone : (got ++ bytes).length = 1 := by
        have htwo : (got ++ bytes).length ≠ 2 := by
          intro h
          obtain ⟨b0, b1, hboth⟩ := List.length_eq_two.mp h
          exact hother b0 b1 hboth
        simp only [List.length_append, NGX_NSOC_LEN_FIELD_SIZE] at htwo hle ⊢
        omega
      refine ⟨hall, Nat.le_of_eq hone, fun hnil => ?_, hnone⟩
      simp only at hnil
      rw [hnil] at hone
      cases hone
  · rw [if_neg hpos] at hflow
    have hbytes : bytes = [] := hrecv.none (by omega)
    rw [hbytes, List.append_nil] at hall
    by_cases hagain : NGX_NSOC_LEN_FIELD_SIZE - got.length = 1 ∧ n = NGX_AGAIN
    · rw [if_pos hagain] at hflow
      cases hflow
      obtain ⟨b0, rfl⟩ : ∃ b0, got = [b0] := List.length_eq_one_iff.mp (by
        have := hagain.1
        simp only [NGX_NSOC_LEN_FIELD_SIZE] at this
        omega)
      exact .again rfl (.first b0 rfl hall) hnone
    · rw [if_neg hagain] at hflow
      by_cases hn : n = NGX_AGAIN
      · rw [if_neg (not_not.mpr hn)] at hflow
        cases hflow
        have hnil : got = [] := by
          refine List.eq_nil_of_length_eq_zero ?_
          have hne : NGX_NSOC_LEN_FIELD_SIZE - got.length ≠ 1 := fun h => hagain ⟨h, hn⟩
          simp only [NGX_NSOC_LEN_FIELD_SIZE] at hne
          omega
        refine .again hn (.unset ?_ (hall.trans hnil)) hnone
        have hneg : v.nc.neg_data = .unset := by rw [hrecv.nc]; exact hsize hnil
        simp [setSize, NoiseConnection.setSize, NoiseConnection.size, hneg, SizeField.stop_reading]
      · rw [if_pos hn] at hflow
        cases hflow
        by_cases hzero : n = 0
        · refine .closed hzero (hrecv.eof hzero) fun b0 => ?_
          exact SizeField.stop_reading_ne_first _ b0
        · obtain hcode | hcode := hrecv.code (by omega)
          · exact absurd hcode hn
          · exact .error hcode

/-- The reader of the length, from its first byte or its second one on. -/
theorem AtLength.read_len {w : Endpoint S} (hw : w.AtLength) (hbuf : w.nc.buf = none) {fuel : Nat}
    {r : Int × Endpoint S} (hr : w.read_len .neg_data fuel = ok r) : LengthRead r := by
  have hloop : ∀ x : List UInt8 × Endpoint S, Holding x →
      loop (read_len_body .neg_data) fuel x = ok r → LengthRead r := by
    intro x hx hloop
    refine loop_invariant Holding LengthRead ?_ ?_ hx hloop
    · exact fun x next hx hnext => read_len_body_holding hx hnext
    · exact fun x value hx hvalue => read_len_body_holding hx hvalue
  cases hw with
  | unset hsize hreceived =>
    simp only [Endpoint.read_len, NoiseConnection.size, hsize] at hr
    exact hloop ([], w.setSize .neg_data .unset) ⟨hreceived, Nat.zero_le 1, fun _ => rfl, hbuf⟩ hr
  | first b0 hsize hreceived =>
    simp only [Endpoint.read_len, NoiseConnection.size, hsize] at hr
    exact hloop ([b0], w) ⟨hreceived, Nat.le_refl 1, fun hnil => (by cases hnil), hbuf⟩ hr

end Endpoint

end ngx_nsoc
