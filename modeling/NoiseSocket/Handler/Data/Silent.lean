import NoiseSocket.Handler.Data.Recv

open Exec Exec.Result

namespace Net

/-- What comes first is no data. -/
def Incoming.Silent (s : Incoming) : Prop := ∀ b bs, s.items.head? ≠ some (.data b bs)

end Net

namespace ngx_nsoc

variable {S : Type}

/-- A read of a silent socket, which stays silent where it has ended. -/
theorem recv_of_silent {s : Net.Incoming} (h : s.Silent) (size : Nat) :
    answerCode (s.recv size).1 ≤ 0 ∧ answerBytes (s.recv size).1 = [] ∧
      (answerCode (s.recv size).1 = 0 → (s.recv size).2.Silent) := by
  obtain ⟨items, closed⟩ := s
  cases items with
  | nil => cases closed <;> exact ⟨by simp [Net.Incoming.recv, answerCode], rfl, fun _ => h⟩
  | cons item rest =>
    cases item with
    | data b bs => exact absurd rfl (h b bs)
    | again => exact ⟨by simp [answerCode], rfl, fun hcode => absurd hcode (by simp [answerCode])⟩
    | error => exact ⟨by simp [answerCode], rfl, fun hcode => absurd hcode (by simp [answerCode])⟩

/-- The bytes of the memory are as they were. -/
def SameBytes (m m' : Memory) : Prop := ∀ x, m'.byte x = m.byte x

theorem sameBytes_write_nil (m : Memory) (addr : Nat) : SameBytes m (m.write addr []) := by
  intro x
  have hnone : ¬ (addr ≤ x ∧ x < addr + ([] : List UInt8).length) := by simp
  simp only [Memory.write, if_neg hnone]

namespace Endpoint

variable {N : NoiseC S} {fuel : Nat} {w : Endpoint S}

theorem recv_at_of_silent (h : w.env.rx.Silent) (part : Part) (addr size : Nat) :
    ∃ n v, w.recv_at part addr size = (n, v) ∧ n ≤ 0 ∧ SameBytes w.mem v.mem := by
  obtain ⟨hcode, hbytes, -⟩ := recv_of_silent h size
  have hanswer : w.env.rx.recv size = ((w.env.rx.recv size).1, (w.env.rx.recv size).2) := rfl
  obtain ⟨v, hrecv, -, -, hmem, -⟩ := recv_at_spec part addr hanswer
  refine ⟨_, v, hrecv, hcode, ?_⟩
  rw [hmem, hbytes]
  exact sameBytes_write_nil w.mem addr

theorem recv_body_of_silent {size : Nat} {flow : ControlFlow (Endpoint S) (Int × Endpoint S)}
    (h : w.env.rx.Silent) (hbody : recv_body N size w = ok flow) :
    ∃ r, flow = .done r ∧ r.1 ≤ 0 ∧ SameBytes w.mem r.2.mem := by
  unfold recv_body at hbody
  cases hb : w.nc.recv_buf with
  | none =>
    rw [hb] at hbody
    cases hbody
  | some b =>
    obtain ⟨n, v, hrecv, hn, hmem⟩ :=
      recv_at_of_silent h (.msg_data (w.nc.noise_msg.recv_size.getD 0)) b.pos (b.stop - b.pos)
    rw [hb] at hbody
    simp only [hrecv] at hbody
    rw [if_neg (Int.not_lt.mpr hn)] at hbody
    cases hbody
    refine ⟨_, rfl, hn, ?_⟩
    dsimp only
    split_ifs
    · exact hmem
    · exact hmem

theorem recv_loop_of_silent {size : Nat} {r : Int × Endpoint S} (h : w.env.rx.Silent)
    (hloop : loop (recv_body N size) fuel w = ok r) : r.1 ≤ 0 ∧ SameBytes w.mem r.2.mem := by
  cases fuel with
  | zero => cases hloop
  | succ fuel =>
    rw [loop_succ, bind_eq_ok_iff] at hloop
    obtain ⟨flow, hbody, hrest⟩ := hloop
    obtain ⟨r', rfl, hcode, hmem⟩ := recv_body_of_silent h hbody
    cases hrest
    exact ⟨hcode, hmem⟩

theorem ngx_recv_of_silent (h : w.env.rx.Silent) (part : Part) (size : Nat) :
    ∃ n v, w.ngx_recv part size = (n, [], v) ∧ n ≤ 0 ∧ v.mem = w.mem ∧ (n = 0 → v.env.rx.Silent) := by
  obtain ⟨hcode, hbytes, hstays⟩ := recv_of_silent h size
  refine ⟨_, (w.ngx_recv part size).2.2, ?_, hcode, rfl, hstays⟩
  rw [← hbytes]
  rfl

theorem read_len_of_silent {f : LenField} {got : List UInt8} {r : Int × Endpoint S} (h : w.env.rx.Silent)
    (hloop : loop (read_len_body f) fuel (got, w) = ok r) :
    r.1 ≤ 0 ∧ r.2.mem = w.mem ∧ (r.1 = NGX_OK → r.2.env.rx.Silent) := by
  cases fuel with
  | zero => cases hloop
  | succ fuel =>
    obtain ⟨n, v, hrecv, hn, hmem, hstays⟩ := ngx_recv_of_silent h f.part (NGX_NSOC_LEN_FIELD_SIZE - got.length)
    rw [loop_succ, bind_eq_ok_iff] at hloop
    obtain ⟨flow, hbody, hrest⟩ := hloop
    simp only [read_len_body, hrecv] at hbody
    rw [if_neg (Int.not_lt.mpr hn)] at hbody
    split_ifs at hbody with hfirst hlast
    all_goals
      cases hbody
      cases hrest
    · exact ⟨by simp, hmem, fun hok => absurd hok (by simp)⟩
    · exact ⟨hn, hmem, hstays⟩
    · exact ⟨hn, hmem, hstays⟩

/-- A call of `ngx_nsoc_recv` on a silent socket has no payload, and stores nothing. -/
theorem recv_call_of_silent {buf size : Nat} {r : Int × Endpoint S} (h : w.env.rx.Silent)
    (hcall : w.recv N fuel buf size = ok r) : r.1 ≤ 0 ∧ SameBytes w.mem r.2.mem := by
  have hsame : SameBytes w.mem w.mem := fun _ => rfl
  by_cases hconnection : w.nc.connection = w.c.id
  · by_cases hlast : w.nc.last = NGX_ERROR
    · rw [recv, if_neg (not_not.mpr hconnection), if_pos hlast] at hcall
      cases hcall
      exact ⟨by simp, hsame⟩
    · by_cases hsize : w.nc.noise_msg.incomplete
      · rw [recv_of_incomplete hconnection hlast hsize] at hcall
        obtain ⟨⟨n, v⟩, hlen, hrest⟩ := bind_eq_ok_iff.mp hcall
        have hread : n ≤ 0 ∧ v.mem = w.mem ∧ (n = NGX_OK → v.env.rx.Silent) := by
          unfold read_noise_msg_len read_len at hlen
          split at hlen
          · exact read_len_of_silent h hlen
          · exact read_len_of_silent (w := w.setSize .noise_msg .unset) h hlen
        obtain ⟨hn, hmem, hstays⟩ := hread
        have hsame' : SameBytes w.mem v.mem := by
          rw [hmem]
          exact hsame
        dsimp only at hrest
        by_cases hok : n = NGX_OK
        · rw [if_neg (not_not.mpr hok)] at hrest
          cases hfield : v.nc.noise_msg.recv_size with
          | none =>
            rw [hfield] at hrest
            cases hrest
            exact ⟨by simp, hsame'⟩
          | some len =>
            rw [hfield] at hrest
            dsimp only at hrest
            split_ifs at hrest
            · cases hrest
              exact ⟨by simp, hsame'⟩
            · obtain ⟨hcode, hbytes⟩ := recv_loop_of_silent
                (w := v.ngx_alloc.2.setRecvBuf (some ⟨buf + 2, buf + 2, buf + 2, buf + 2 + len⟩)) (hstays hok) hrest
              refine ⟨hcode, fun x => ?_⟩
              rw [hbytes x]
              exact hsame' x
            · cases hrest
              exact ⟨by simp, hsame'⟩
        · rw [if_pos hok] at hrest
          cases hrest
          exact ⟨hn, hsame'⟩
      · obtain hincomplete | ⟨len, hknown⟩ := w.nc.noise_msg.incomplete_or
        · exact absurd hincomplete hsize
        · rw [recv, if_neg (not_not.mpr hconnection), if_neg hlast, hknown] at hcall
          exact recv_loop_of_silent h hcall
  · rw [recv, if_pos hconnection] at hcall
    cases hcall
    exact ⟨by simp, hsame⟩

end Endpoint

end ngx_nsoc
