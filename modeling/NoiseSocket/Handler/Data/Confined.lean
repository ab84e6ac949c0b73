import NoiseSocket.Handler.Data.Ends
import NoiseSocket.Handler.Data.Outcome

open Exec Exec.Result

namespace ngx_nsoc

variable {S : Type}

theorem length_answerBytes_of_recv {s rx : Net.Incoming} {size : Nat} {answer : Net.Answer}
    (h : s.recv size = (answer, rx)) : (answerBytes answer).length ≤ size ∧
      (0 < answerCode answer → (answerCode answer).toNat = (answerBytes answer).length) := by
  cases answer with
  | data got => exact ⟨Net.length_le_of_recv_data h, fun _ => rfl⟩
  | eof | again | error => exact ⟨Nat.zero_le _, by simp [answerCode]⟩

namespace Endpoint

/-- The body of the frame that is under way lies from `lo` to `hi`. -/
def Confined (lo hi : Nat) (w : Endpoint S) : Prop :=
  ∀ b, w.nc.recv_buf = some b → ∃ len, w.nc.noise_msg = .known len ∧
    lo ≤ b.start ∧ b.start ≤ b.pos ∧ b.pos ≤ b.stop ∧ b.stop = b.start + len ∧ b.stop ≤ hi

/-- The length in front of the next frame, where both of its bytes have arrived. -/
def frame_len (w : Endpoint S) : Option Nat :=
  match w.nc.noise_msg with
  | .known _ => none
  | size =>
    match size.held ++ w.env.rx.arrived with
    | b0 :: b1 :: _ => some (be16 b0 b1)
    | _ => none

/-- The socket fails right behind the length of the next frame. -/
def fails_behind_len (w : Endpoint S) : Prop :=
  (take_len w.nc.noise_msg w.env.rx).2.items.head? = some .error

instance (w : Endpoint S) : Decidable w.fails_behind_len := by
  unfold fails_behind_len
  infer_instance

/-- The length of the frame whose body a call begins to read, where the call gets that far. -/
def begun_len (w : Endpoint S) : Option Nat :=
  if w.nc.connection = w.c.id ∧ w.nc.last ≠ NGX_ERROR ∧ w.ngx_alloc.1 ∧ ¬ w.fails_behind_len then w.frame_len
  else none

/-- A call fails, and the body of the frame before it is still to be read. -/
def Refused (w : Endpoint S) (r : Int × Endpoint S) : Prop :=
  r.1 = NGX_ERROR ∧
    (w.nc.noise_msg.held ++ w.env.rx.bytes).drop NGX_NSOC_LEN_FIELD_SIZE <:+ r.2.env.rx.bytes

theorem frame_len_incomplete {w : Endpoint S} {b0 b1 : UInt8} {more : List UInt8}
    (h : w.nc.noise_msg.incomplete)
    (hhere : w.nc.noise_msg.held ++ w.env.rx.arrived = b0 :: b1 :: more) :
    w.frame_len = some (be16 b0 b1) := by
  unfold frame_len
  cases hsize : w.nc.noise_msg with
  | known size => simp [hsize, SizeField.incomplete] at h
  | unset | first b => simp only [hsize] at hhere; simp only [hhere]

theorem incomplete_of_frame_len {w : Endpoint S} {len : Nat} (h : w.frame_len = some len) :
    w.nc.noise_msg.incomplete ∧ ∃ b0 b1 more,
      w.nc.noise_msg.held ++ w.env.rx.arrived = b0 :: b1 :: more ∧ len = be16 b0 b1 := by
  unfold frame_len at h
  cases hsize : w.nc.noise_msg with
  | known size =>
    rw [hsize] at h
    cases h
  | unset | first b =>
    simp only [hsize] at h
    refine ⟨rfl, ?_⟩
    split at h
    next b0 b1 more heq => exact ⟨b0, b1, more, heq, (Option.some.inj h).symm⟩
    next => cases h

/-- The body lies behind at most two of the bytes that are left. -/
theorem held_drop_suffix (w : Endpoint S) :
    (w.nc.noise_msg.held ++ w.env.rx.bytes).drop NGX_NSOC_LEN_FIELD_SIZE <:+ w.env.rx.bytes := by
  cases w.nc.noise_msg with
  | unset | known size => exact List.drop_suffix 2 _
  | first b0 => exact List.drop_suffix 1 _

/-- Reading a length takes no allocation. -/
theorem LenFrame.ngx_alloc_eq {f : LenField} {w v : Endpoint S} (h : LenFrame f w v) :
    v.ngx_alloc.1 = w.ngx_alloc.1 := by
  simp only [ngx_alloc]
  rw [h.env]

theorem confined_of_none {lo hi : Nat} {w : Endpoint S} (h : w.nc.recv_buf = none) : w.Confined lo hi := by
  intro b hb
  rw [h] at hb
  cases hb

/-- Only the frame that is under way counts. -/
theorem Confined.of_nc {lo hi : Nat} {w v : Endpoint S} (h : w.Confined lo hi)
    (hrecv_buf : v.nc.recv_buf = w.nc.recv_buf) (hnoise_msg : v.nc.noise_msg = w.nc.noise_msg) :
    v.Confined lo hi := by
  intro b hb
  rw [hrecv_buf] at hb
  rw [hnoise_msg]
  exact h b hb

/-- Between two frames there is no body. -/
theorem Confined.none_of_incomplete {lo hi : Nat} {w : Endpoint S} (h : w.Confined lo hi)
    (hsize : w.nc.noise_msg.incomplete) : w.nc.recv_buf = none := by
  cases hb : w.nc.recv_buf with
  | none => rfl
  | some b =>
    obtain ⟨len, hknown, -⟩ := h b hb
    simp [hknown, SizeField.incomplete] at hsize

section

variable {N : NoiseC S} {lo hi fuel size : Nat} {w : Endpoint S}

/-- The end of a frame: the plaintext goes over the front of the body. -/
theorem confined_recv_frame (hN : N.Tagged) {b : RawBuf} {len : Nat} (hknown : w.nc.noise_msg = .known len)
    (hb : w.nc.recv_buf = some b) (h : w.Confined lo hi) :
    (w.recv_frame N b.start len size).2.Confined lo hi ∧
      w.mem.WritesWithin (w.recv_frame N b.start len size).2.mem (Set.Ico lo hi) := by
  obtain ⟨len', hsame, hlo, -, -, hstop, hhi⟩ := h b hb
  obtain rfl := SizeField.known.inj (hknown.symm.trans hsame)
  have hlen := hN.decrypt (w.mem.read b.start len) w.noise
  rw [Memory.length_read] at hlen
  have hwrites := w.mem.within_write (N.cipherstate_decrypt (w.mem.read b.start len) w.noise).1.2
    hlo (show b.start + _ ≤ hi by omega)
  unfold recv_frame
  dsimp only
  split_ifs
  · exact ⟨confined_of_none rfl, hwrites⟩
  · exact ⟨h, hwrites⟩
  · exact ⟨confined_of_none rfl, hwrites⟩

/-- A pass of the loop of `ngx_nsoc_recv` stores in the body of the frame. -/
theorem confined_recv_body (hN : N.Tagged) {flow : ControlFlow (Endpoint S) (Int × Endpoint S)}
    (h : w.Confined lo hi) (hbody : recv_body N size w = ok flow) :
    flow.Holds (fun v => v.Confined lo hi ∧ w.mem.WritesWithin v.mem (Set.Ico lo hi))
      fun r => r.2.Confined lo hi ∧ w.mem.WritesWithin r.2.mem (Set.Ico lo hi) := by
  cases hb : w.nc.recv_buf with
  | none =>
    simp only [recv_body, hb] at hbody
    cases hbody
  | some b =>
    obtain ⟨len, hknown, hlo, hpos, hle, hstop, hhi⟩ := h b hb
    obtain ⟨answer, rx, hrecv⟩ : ∃ answer rx, w.env.rx.recv (b.stop - b.pos) = (answer, rx) :=
      ⟨_, _, rfl⟩
    obtain ⟨hlen, hcode⟩ := length_answerBytes_of_recv hrecv
    obtain ⟨v, hat, -, hnc, hmem, -⟩ := recv_at_spec (.msg_data len) b.pos hrecv
    have hwrites : w.mem.WritesWithin v.mem (Set.Ico lo hi) := by
      rw [hmem]
      exact w.mem.within_write _ (by omega) (by omega)
    have hknown' : v.nc.noise_msg = .known len := by rw [hnc, hknown]
    -- the body has grown by what came in
    have hgrown : 0 < answerCode answer →
        (v.setRecvBuf (some { b with pos := b.pos + (answerCode answer).toNat })).Confined lo hi := by
      rintro hcame b' hb'
      cases hb'
      have hcount := hcode hcame
      exact ⟨len, hknown', hlo, by dsimp only; omega, by dsimp only; omega, hstop, hhi⟩
    simp only [recv_body, hb, hknown, SizeField.recv_size, Option.getD_some, hat] at hbody
    split_ifs at hbody with hcame hfull hagain
    · cases hbody
      obtain ⟨hdone, hframe⟩ := @confined_recv_frame _ N lo hi size _ hN _ _
        (show (v.setRecvBuf (some { b with pos := b.pos + (answerCode answer).toNat })).nc.noise_msg = _
          from hknown') rfl (hgrown hcame)
      exact ⟨hdone, hwrites.trans hframe⟩
    · cases hbody
      exact ⟨hgrown hcame, hwrites⟩
    · cases hbody
      exact ⟨confined_of_none rfl, hwrites⟩
    · cases hbody
      have hv : v.Confined lo hi := h.of_nc (by rw [hnc]) (by rw [hnc])
      exact ⟨hv.of_nc rfl rfl, hwrites⟩

theorem confined_recv_loop (hN : N.Tagged) {r : Int × Endpoint S} (h : w.Confined lo hi)
    (hloop : loop (recv_body N size) fuel w = ok r) :
    r.2.Confined lo hi ∧ w.mem.WritesWithin r.2.mem (Set.Ico lo hi) := by
  refine loop_holds (fun v => v.Confined lo hi ∧ w.mem.WritesWithin v.mem (Set.Ico lo hi))
    (fun r => r.2.Confined lo hi ∧ w.mem.WritesWithin r.2.mem (Set.Ico lo hi)) ?_ ⟨h, .refl _ _⟩ hloop
  rintro v flow ⟨hconfined, hwrites⟩ hbody
  have hpass := confined_recv_body hN hconfined hbody
  cases flow with
  | cont next => exact ⟨hpass.1, hwrites.trans hpass.2⟩
  | done r => exact ⟨hpass.1, hwrites.trans hpass.2⟩

/-- Where the stream is over or fails in front of the body, the call ends with it. -/
theorem recv_loop_over {b : RawBuf} {answer : Net.Answer} {rx : Net.Incoming} {r : Int × Endpoint S}
    (hrecv : w.env.rx.recv (b.stop - b.pos) = (answer, rx)) (hover : answer = .eof ∨ answer = .error)
    (hb : w.nc.recv_buf = some b) (hloop : loop (recv_body N size) fuel w = ok r) :
    r.1 = answerCode answer ∧ r.2.env.rx = rx ∧ r.2.nc.recv_buf = none ∧ r.2.mem = w.mem.write b.pos [] := by
  obtain ⟨v, hat, hrx, -, hmem, -⟩ :=
    recv_at_spec (.msg_data (w.nc.noise_msg.recv_size.getD 0)) b.pos hrecv
  have hcode : ¬ 0 < answerCode answer ∧ answerCode answer ≠ NGX_AGAIN ∧ answerBytes answer = [] := by
    obtain rfl | rfl := hover
    · exact ⟨by decide, by decide, rfl⟩
    · exact ⟨by decide, by decide, rfl⟩
  have hbody : recv_body N size w = ok (.done (answerCode answer, v.end_frame.setLast (answerCode answer))) := by
    simp only [recv_body, hb, hat]
    rw [if_neg hcode.1, if_pos hcode.2.1]
  rw [hcode.2.2] at hmem
  cases fuel with
  | zero => cases hloop
  | succ fuel =>
    rw [loop_of_done (Nat.succ_pos _) hbody] at hloop
    cases hloop
    exact ⟨rfl, hrx, rfl, hmem⟩

/-- There nothing is stored, wherever the frame would lie. -/
theorem confined_recv_loop_over {b : RawBuf} {answer : Net.Answer} {rx : Net.Incoming} {r : Int × Endpoint S}
    (hrecv : w.env.rx.recv (b.stop - b.pos) = (answer, rx)) (hover : answer = .eof ∨ answer = .error)
    (hb : w.nc.recv_buf = some b) (hloop : loop (recv_body N size) fuel w = ok r) :
    r.2.Confined lo hi ∧ w.mem.WritesWithin r.2.mem (Set.Ico lo hi) := by
  obtain ⟨-, -, hnone, hmem⟩ := recv_loop_over hrecv hover hb hloop
  refine ⟨confined_of_none hnone, ?_⟩
  rw [hmem]
  exact w.mem.within_write_nil _ _

/-- A call of `ngx_nsoc_recv` between two frames. -/
theorem confined_recv_between (hN : N.Tagged) {buf : Nat} {r : Int × Endpoint S} (h : w.Confined lo hi)
    (hincomplete : w.nc.noise_msg.incomplete) (hlo : lo ≤ buf + 2)
    (hfits : ∀ len, w.begun_len = some len → buf + 2 + len ≤ hi)
    (hid : w.nc.connection = w.c.id) (hlast : w.nc.last ≠ NGX_ERROR)
    (hcall : w.recv N fuel buf size = ok r) :
    r.2.Confined lo hi ∧ w.mem.WritesWithin r.2.mem (Set.Ico lo hi) := by
  rw [recv_of_incomplete hid hlast hincomplete, bind_eq_ok_iff] at hcall
  obtain ⟨⟨n, v⟩, hlen, hrest⟩ := hcall
  obtain ⟨hn, hresult⟩ := read_len_cases hlen
  have htaken := take_len_taken hincomplete w.env.rx
  have hmem : v.mem = w.mem := hresult.frame.reads.mem
  have hsize : v.nc.noise_msg = _ := hresult.size
  have hrx : v.env.rx = _ := hresult.rx
  have hnone : v.nc.recv_buf = none := by
    have hkept : v.nc.recv_buf = w.nc.recv_buf := by
      simpa [NoiseConnection.settled] using congrArg NoiseConnection.recv_buf hresult.frame.reads.settled
    rw [hkept, h.none_of_incomplete hincomplete]
  have halloc : v.ngx_alloc.1 = w.ngx_alloc.1 := hresult.frame.ngx_alloc_eq
  have hself : ∀ {u : Endpoint S}, u.nc.recv_buf = v.nc.recv_buf → u.mem = v.mem →
      u.Confined lo hi ∧ w.mem.WritesWithin u.mem (Set.Ico lo hi) := by
    intro u hu humem
    rw [humem, hmem]
    exact ⟨confined_of_none (hu.trans hnone), .refl _ _⟩
  have hfailing : w.fails_behind_len = ((take_len w.nc.noise_msg w.env.rx).2.items.head? = some .error) := rfl
  rw [show w.nc.size .noise_msg = w.nc.noise_msg from rfl] at hn hsize hrx
  dsimp only at hrest hn hsize hrx
  generalize take_len w.nc.noise_msg w.env.rx = taken at htaken hn hsize hrx hfailing
  cases htaken with
  | @got b0 b1 rx hbytes hhere =>
    rw [if_neg (by simp [hn, LenAnswer.code]), hsize] at hrest
    dsimp only [LenAnswer.size, SizeField.recv_size] at hrest
    split_ifs at hrest
    · cases hrest
      exact hself rfl rfl
    · rename_i hgranted
      by_cases hfails : w.fails_behind_len
      · have hrecv : v.ngx_alloc.2.env.rx.recv (be16 b0 b1) = (.error, ⟨rx.items.tail, rx.closed⟩) := by
          rw [show v.ngx_alloc.2.env.rx = rx from hrx]
          exact Net.recv_of_head_error (hfailing ▸ hfails) _
        obtain ⟨hdone, hwrites⟩ := confined_recv_loop_over
          (w := v.ngx_alloc.2.setRecvBuf (some ⟨buf + 2, buf + 2, buf + 2, buf + 2 + be16 b0 b1⟩))
          (by rw [Nat.add_sub_cancel_left]; exact hrecv) (.inr rfl) rfl hrest
        exact ⟨hdone, hmem ▸ hwrites⟩
      have hlen : w.begun_len = some (be16 b0 b1) := by
        rw [begun_len, if_pos ⟨hid, hlast, halloc ▸ hgranted, hfails⟩]
        exact frame_len_incomplete hincomplete hhere
      have hbegun : (v.ngx_alloc.2.setRecvBuf
          (some ⟨buf + 2, buf + 2, buf + 2, buf + 2 + be16 b0 b1⟩)).Confined lo hi := by
        rintro b hb
        cases hb
        have hend := hfits _ hlen
        exact ⟨_, hsize, hlo, Nat.le_refl _, Nat.le_add_right _ _, rfl, hend⟩
      obtain ⟨hdone, hwrites⟩ := confined_recv_loop hN hbegun hrest
      exact ⟨hdone, hmem ▸ hwrites⟩
    · cases hrest
      exact hself rfl rfl
  | again hsaved hbytes hshort =>
    rw [if_pos (by simp [hn, LenAnswer.code])] at hrest
    cases hrest
    exact hself rfl rfl
  | error saved rx hshort =>
    rw [if_pos (by simp [hn, LenAnswer.code])] at hrest
    cases hrest
    exact hself rfl rfl
  | closed hsaved hshort =>
    rw [if_neg (by simp [hn, LenAnswer.code]), hsize] at hrest
    obtain rfl | ⟨b0, rfl⟩ := hsaved
    · cases hrest
      exact hself rfl rfl
    · -- the byte that was held is taken for the length
      dsimp only [LenAnswer.size, SizeField.recv_size] at hrest
      split_ifs at hrest
      · cases hrest
        exact hself rfl rfl
      · have hover : v.ngx_alloc.2.env.rx = ⟨[], true⟩ := hrx
        obtain ⟨hdone, hwrites⟩ := confined_recv_loop_over
          (w := v.ngx_alloc.2.setRecvBuf (some ⟨buf + 2, buf + 2, buf + 2, buf + 2 + b0.toNat⟩))
          (hover ▸ Net.recv_closed _) (.inl rfl) rfl hrest
        exact ⟨hdone, hmem ▸ hwrites⟩
      · cases hrest
        exact hself rfl rfl

/-- A call of `ngx_nsoc_recv` stores in the body of its frame, if that ends in front of `hi`. -/
theorem confined_recv (hN : N.Tagged) {buf : Nat} {r : Int × Endpoint S} (h : w.Confined lo hi)
    (hlo : lo ≤ buf + 2) (hfits : ∀ len, w.begun_len = some len → buf + 2 + len ≤ hi)
    (hcall : w.recv N fuel buf size = ok r) :
    r.2.Confined lo hi ∧ w.mem.WritesWithin r.2.mem (Set.Ico lo hi) := by
  by_cases hid : w.nc.connection ≠ w.c.id
  · rw [Endpoint.recv, if_pos hid] at hcall
    cases hcall
    exact ⟨h, .refl _ _⟩
  by_cases hlast : w.nc.last = NGX_ERROR
  · rw [Endpoint.recv, if_neg hid, if_pos hlast] at hcall
    cases hcall
    exact ⟨h.of_nc rfl rfl, .refl _ _⟩
  by_cases hincomplete : w.nc.noise_msg.incomplete
  · exact confined_recv_between hN h hincomplete hlo hfits (not_not.mp hid) hlast hcall
  · rw [Endpoint.recv, if_neg hid, if_neg hlast] at hcall
    cases hsize : w.nc.noise_msg with
    | known len =>
      rw [hsize] at hcall
      exact confined_recv_loop hN h hcall
    | unset | first b0 => simp [hsize, SizeField.incomplete] at hincomplete

/-- A call that does not begin to read the body of the frame before it fails. -/
theorem refused_of_not_begun {buf len : Nat} {r : Int × Endpoint S} (hlen : w.frame_len = some len)
    (hnot : w.begun_len = none) (hcall : w.recv N fuel buf size = ok r) : w.Refused r := by
  obtain ⟨hincomplete, b0, b1, more, hhere, -⟩ := incomplete_of_frame_len hlen
  by_cases hid : w.nc.connection ≠ w.c.id
  · rw [Endpoint.recv, if_pos hid] at hcall
    cases hcall
    exact ⟨rfl, w.held_drop_suffix⟩
  by_cases hlast : w.nc.last = NGX_ERROR
  · rw [Endpoint.recv, if_neg hid, if_pos hlast] at hcall
    cases hcall
    exact ⟨rfl, w.held_drop_suffix⟩
  rw [recv_of_incomplete (not_not.mp hid) hlast hincomplete, bind_eq_ok_iff] at hcall
  obtain ⟨⟨n, v⟩, hread, hrest⟩ := hcall
  obtain ⟨hn, hresult⟩ := read_len_cases hread
  have htaken := take_len_taken hincomplete w.env.rx
  have hsize : v.nc.noise_msg = _ := hresult.size
  have hrx : v.env.rx = _ := hresult.rx
  have hstops : v.ngx_alloc.1 → w.fails_behind_len := by
    rw [show v.ngx_alloc.1 = w.ngx_alloc.1 from hresult.frame.ngx_alloc_eq]
    intro hgranted
    by_contra hgoes
    rw [begun_len, if_pos ⟨not_not.mp hid, hlast, hgranted, hgoes⟩, hlen] at hnot
    cases hnot
  have hfailing : w.fails_behind_len = ((take_len w.nc.noise_msg w.env.rx).2.items.head? = some .error) := rfl
  rw [show w.nc.size .noise_msg = w.nc.noise_msg from rfl] at hn hsize hrx
  dsimp only at hrest hn hsize hrx
  generalize take_len w.nc.noise_msg w.env.rx = taken at htaken hn hsize hrx hfailing
  have hboth : 2 ≤ (w.nc.noise_msg.held ++ w.env.rx.arrived).length := by
    rw [hhere]
    simp
  cases htaken with
  | @got b0 b1 rx hbytes hhere =>
    have hleft : (w.nc.noise_msg.held ++ w.env.rx.bytes).drop NGX_NSOC_LEN_FIELD_SIZE = v.env.rx.bytes := by
      rw [hbytes, hrx]
      rfl
    rw [if_neg (by simp [hn, LenAnswer.code]), hsize] at hrest
    dsimp only [LenAnswer.size, SizeField.recv_size] at hrest
    split_ifs at hrest with hbuf halloc
    · cases hrest
      exact ⟨rfl, hleft ▸ List.suffix_rfl⟩
    · have hfails : rx.items.head? = some .error := hfailing ▸ hstops halloc
      have hrecv : v.ngx_alloc.2.env.rx.recv (be16 b0 b1) = (.error, ⟨rx.items.tail, rx.closed⟩) := by
        rw [show v.ngx_alloc.2.env.rx = rx from hrx]
        exact Net.recv_of_head_error hfails _
      obtain ⟨hcode, hrx', -⟩ := recv_loop_over
        (w := v.ngx_alloc.2.setRecvBuf (some ⟨buf + 2, buf + 2, buf + 2, buf + 2 + be16 b0 b1⟩))
        (by rw [Nat.add_sub_cancel_left]; exact hrecv) (.inr rfl) rfl hrest
      have hbytes' : r.2.env.rx.bytes = v.env.rx.bytes := by
        rw [hrx', Net.bytes_of_head_error hfails, show v.env.rx = rx from hrx]
      exact ⟨hcode, hleft ▸ hbytes' ▸ List.suffix_rfl⟩
    · cases hrest
      exact ⟨rfl, hleft ▸ List.suffix_rfl⟩
  | again hsaved hbytes hshort => omega
  | error saved rx hshort => omega
  | closed hsaved hshort => omega

/-- A pass of the loop of `ngx_nsoc_recv` gives nothing back to the stream. -/
theorem recv_body_bytes_le {n : Nat} {b : RawBuf} {flow : ControlFlow (Endpoint S) (Int × Endpoint S)}
    (hb : w.nc.recv_buf = some b) (hn : (w.env.rx.recv (b.stop - b.pos)).2.bytes.length ≤ n)
    (hbody : recv_body N size w = ok flow) :
    flow.Holds (fun v => v.env.rx.bytes.length ≤ n) fun r => r.2.env.rx.bytes.length ≤ n := by
  obtain ⟨v, hat, hrx, -⟩ := recv_at_spec (.msg_data (w.nc.noise_msg.recv_size.getD 0)) b.pos
    (Prod.mk.eta (p := w.env.rx.recv (b.stop - b.pos))).symm
  rw [← hrx] at hn
  simp only [recv_body, hb, hat] at hbody
  split_ifs at hbody
  · cases hbody
    unfold recv_frame
    dsimp only
    split_ifs <;> exact hn
  · cases hbody
    exact hn
  · cases hbody
    exact hn
  · cases hbody
    exact hn

theorem recv_loop_bytes_le {n : Nat} {r : Int × Endpoint S} (hn : w.env.rx.bytes.length ≤ n)
    (hloop : loop (recv_body N size) fuel w = ok r) : r.2.env.rx.bytes.length ≤ n := by
  refine loop_holds (fun v => v.env.rx.bytes.length ≤ n) (fun r => r.2.env.rx.bytes.length ≤ n) ?_ hn hloop
  intro v flow hv hbody
  cases hb : v.nc.recv_buf with
  | none =>
    simp only [recv_body, hb] at hbody
    cases hbody
  | some b =>
    have hle := Net.Incoming.length_bytes_recv_le
      (Prod.mk.eta (p := v.env.rx.recv (b.stop - b.pos))).symm
    exact recv_body_bytes_le hb (hle.trans hv) hbody

/-- A loop that goes into a body of at least one byte, from a stream that does not fail there, either does not
fail or has read some of it. -/
theorem recv_loop_not_refused {b : RawBuf} {r : Int × Endpoint S} (hb : w.nc.recv_buf = some b)
    (hroom : b.pos < b.stop) (hgoes : w.env.rx.items.head? ≠ some .error)
    (hloop : loop (recv_body N size) fuel w = ok r) :
    r.1 ≠ NGX_ERROR ∨ r.2.env.rx.bytes.length < w.env.rx.bytes.length := by
  obtain ⟨answer, rx, hrecv⟩ : ∃ answer rx, w.env.rx.recv (b.stop - b.pos) = (answer, rx) := ⟨_, _, rfl⟩
  cases answer with
  | error => exact absurd (Net.head_of_recv_error hrecv) hgoes
  | eof =>
    obtain ⟨hcode, -⟩ := recv_loop_over hrecv (.inl rfl) hb hloop
    rw [hcode]
    exact .inl (by decide)
  | again =>
    obtain ⟨v, hat, -⟩ := recv_at_spec (.msg_data (w.nc.noise_msg.recv_size.getD 0)) b.pos hrecv
    have hbody : recv_body N size w = ok (.done (NGX_AGAIN, v.setLast NGX_AGAIN)) := by
      simp only [recv_body, hb, hat]
      rfl
    cases fuel with
    | zero => cases hloop
    | succ fuel =>
      rw [loop_of_done (Nat.succ_pos _) hbody] at hloop
      cases hloop
      exact .inl (show NGX_AGAIN ≠ NGX_ERROR by decide)
  | data got =>
    obtain ⟨hpos, -⟩ := Net.length_of_recv_data (Nat.sub_pos_of_lt hroom) hrecv
    have hbytes := Net.Incoming.bytes_of_recv_data hrecv
    have hless : rx.bytes.length < w.env.rx.bytes.length := by
      rw [hbytes, List.length_append]
      omega
    cases fuel with
    | zero => cases hloop
    | succ fuel =>
      rw [loop_succ, bind_eq_ok_iff] at hloop
      obtain ⟨flow, hbody, hrest⟩ := hloop
      have hpass := recv_body_bytes_le hb (le_of_eq (by rw [hrecv])) hbody
      refine .inr (Nat.lt_of_le_of_lt ?_ hless)
      cases flow with
      | cont next => exact recv_loop_bytes_le hpass hrest
      | done result =>
        cases hrest
        exact hpass

/-- A call that begins to read a body does not refuse the frame. -/
theorem not_refused_of_begun {buf len : Nat} {r : Int × Endpoint S} (hbegun : w.begun_len = some len)
    (hlen : 0 < len) (hbuf : buf ≠ 0) (hcall : w.recv N fuel buf size = ok r) : ¬ w.Refused r := by
  unfold begun_len at hbegun
  split_ifs at hbegun with hbegins
  obtain ⟨hid, hlast, hgranted, hgoes⟩ := hbegins
  obtain ⟨hincomplete, b0, b1, more, hhere, rfl⟩ := incomplete_of_frame_len hbegun
  rw [recv_of_incomplete hid hlast hincomplete, bind_eq_ok_iff] at hcall
  obtain ⟨⟨n, v⟩, hread, hrest⟩ := hcall
  obtain ⟨hn, hresult⟩ := read_len_cases hread
  have htaken := take_len_taken hincomplete w.env.rx
  have hsize : v.nc.noise_msg = _ := hresult.size
  have hrx : v.env.rx = _ := hresult.rx
  have halloc : v.ngx_alloc.1 = w.ngx_alloc.1 := hresult.frame.ngx_alloc_eq
  unfold fails_behind_len at hgoes
  rw [show w.nc.size .noise_msg = w.nc.noise_msg from rfl] at hn hsize hrx
  dsimp only at hrest hn hsize hrx
  generalize take_len w.nc.noise_msg w.env.rx = taken at htaken hn hsize hrx hgoes
  have hboth : 2 ≤ (w.nc.noise_msg.held ++ w.env.rx.arrived).length := by
    rw [hhere]
    simp
  cases htaken with
  | @got c0 c1 rx hbytes hsame =>
    rw [hhere] at hsame
    obtain ⟨rfl, rfl, -⟩ : b0 = c0 ∧ b1 = c1 ∧ more = rx.arrived := by simpa using hsame
    have hleft : (w.nc.noise_msg.held ++ w.env.rx.bytes).drop NGX_NSOC_LEN_FIELD_SIZE = rx.bytes := by
      rw [hbytes]
      rfl
    rw [if_neg (by simp [hn, LenAnswer.code]), hsize] at hrest
    dsimp only [LenAnswer.size, SizeField.recv_size] at hrest
    rw [if_neg hbuf, if_neg (by rw [halloc]; exact not_not.mpr hgranted)] at hrest
    rintro ⟨hcode, hsuffix⟩
    generalize hbuffered : v.ngx_alloc.2.setRecvBuf (some ⟨buf + 2, buf + 2, buf + 2, buf + 2 + be16 b0 b1⟩) = u
      at hrest
    have hrecv_buf : u.nc.recv_buf = some ⟨buf + 2, buf + 2, buf + 2, buf + 2 + be16 b0 b1⟩ := by
      rw [← hbuffered]
      rfl
    have hstream : u.env.rx = rx := by
      rw [← hbuffered]
      exact hrx
    obtain hother | hless := recv_loop_not_refused hrecv_buf (Nat.lt_add_of_pos_right hlen)
      (by rw [hstream]; exact hgoes) hrest
    · exact hother hcode
    · rw [hstream] at hless
      rw [hleft] at hsuffix
      have hle := hsuffix.length_le
      omega
  | again hsaved hbytes hshort => omega
  | error saved rx hshort => omega
  | closed hsaved hshort => omega

/-- Sealing a payload in place stores from its two length fields on to the end of the tag. -/
theorem confined_write_frame (hN : N.Tagged) {data data_size : Nat} (hlo : lo ≤ data)
    (hhi : data + data_size + 20 ≤ hi) :
    w.mem.WritesWithin (w.write_frame N data data_size).2.mem (Set.Ico lo hi) := by
  have hfield := w.mem.within_write (lenBytes data_size) (show lo ≤ data + 2 by omega)
    (show data + 2 + 2 ≤ hi by omega)
  unfold write_frame
  dsimp only
  split_ifs with halloc herror
  · exact hfield
  · have hlen := hN.encrypt _ _ (not_not.mp herror)
    rw [Memory.length_read] at hlen
    refine (hfield.trans (Memory.within_write _ _ ?_ ?_)).trans (Memory.within_write _ _ hlo ?_)
    · dsimp only [NGX_NSOC_LEN_FIELD_SIZE]
      omega
    · dsimp only [NGX_NSOC_LEN_FIELD_SIZE] at hlen ⊢
      omega
    · show data + 2 ≤ hi
      omega
  · exact .refl _ _

/-- A call of `ngx_nsoc_write` stores in front of `hi`, if the frame of a payload that it does not refuse
ends there. -/
theorem confined_write (hN : N.Tagged) {data : Nat} {r : Int × Endpoint S} (hlo : lo ≤ data)
    (hfits : size - 2 * NGX_NSOC_LEN_FIELD_SIZE ≤ w.nc.buffer_size →
      data + (size - 2 * NGX_NSOC_LEN_FIELD_SIZE) + 20 ≤ hi)
    (hcall : w.write N fuel data size = ok r) : w.mem.WritesWithin r.2.mem (Set.Ico lo hi) := by
  have hloop : ∀ {b : RawBuf} {v : Endpoint S}, loop (write_body size) fuel (b, v) = ok r →
      r.2.mem = v.mem := by
    intro b v h
    obtain ⟨env, ⟨-, hr⟩ | ⟨-, hr⟩⟩ := write_loop_cases h
    · rw [hr]
      rfl
    · rw [hr]
  unfold write at hcall
  split_ifs at hcall with hargs hid hrefused hto_send
  · cases hcall
    exact .refl _ _
  · cases hcall
    exact .refl _ _
  · cases hcall
    exact .refl _ _
  · have hframe := confined_write_frame (w := w) hN hlo (hfits (Nat.le_of_not_lt hrefused))
    split at hcall
    next v heq =>
      rw [heq] at hframe
      cases hcall
      exact hframe
    next b v heq =>
      rw [heq] at hframe
      rw [hloop hcall]
      exact hframe
  · split at hcall
    next => cases hcall
    next b hb =>
      rw [hloop hcall]
      exact .refl _ _

end

end Endpoint

end ngx_nsoc
