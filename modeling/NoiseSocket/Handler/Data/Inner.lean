import NoiseSocket.Handler.Data.RoundTrip

open Exec Exec.Result

namespace ngx_nsoc

variable {S : Type}

/-- What is in the receive buffer behind a decryption in place: the plaintext, and behind
it the tail of the frame. -/
def opened (sealed plain : List UInt8) : List UInt8 := plain ++ sealed.drop plain.length

/-- The inner length that `ngx_nsoc_recv` finds in front of the payload. -/
def plain_data_size (sealed plain : List UInt8) : Nat :=
  match opened sealed plain with
  | b0 :: b1 :: _ => be16 b0 b1
  | _ => 0

/-- `n` bytes that are part of the plaintext, behind its length. -/
structure Within (plain : List UInt8) (n : Int) (bytes : List UInt8) : Prop where
  field : 2 ≤ plain.length
  size : n ≤ plain.length - 2
  bytes : bytes = (plain.drop 2).take n.toNat

namespace Endpoint

/-- The first of several calls of `ngx_nsoc_recv` with the same buffer that does not
return `NGX_AGAIN`. -/
inductive RecvFirst (N : NoiseC S) (fuel buf size : Nat) : Endpoint S → Int × Endpoint S → Prop where
  | now {w : Endpoint S} {r : Int × Endpoint S} (hcall : w.recv N fuel buf size = ok r)
      (hn : r.1 ≠ NGX_AGAIN) : RecvFirst N fuel buf size w r
  | later {w v : Endpoint S} {r : Int × Endpoint S}
      (hcall : w.recv N fuel buf size = ok (NGX_AGAIN, v)) (hrest : RecvFirst N fuel buf size v r) :
      RecvFirst N fuel buf size w r

section

variable {N : NoiseC S} {fuel buf size : Nat} {sealed plain rest : List UInt8} {noise : S}
  {v w : Endpoint S}

theorem opened_eq_cons (hlen : sealed.length = plain.length + 16) :
    ∃ b0 b1 tail, opened sealed plain = b0 :: b1 :: tail := by
  have hopened : (opened sealed plain).length = plain.length + 16 := by
    simp [opened, hlen]
  match hcases : opened sealed plain with
  | [] | [_] =>
    rw [hcases] at hopened
    simp at hopened
  | b0 :: b1 :: tail => exact ⟨b0, b1, tail, rfl⟩

/-- The end of a frame that noise-c has opened: an inner length above `size` is an error,
any other one is returned. -/
theorem recv_frame_opened (size : Nat) (hread : v.mem.read (buf + 2) sealed.length = sealed)
    (hlen : sealed.length = plain.length + 16)
    (hopen : N.cipherstate_decrypt sealed v.noise = ((NOISE_ERROR_NONE, plain), noise)) :
    (size < plain_data_size sealed plain ∧
        (v.recv_frame N (buf + 2) sealed.length size).1 = NGX_ERROR) ∨
      plain_data_size sealed plain ≤ size ∧
        (v.recv_frame N (buf + 2) sealed.length size).1 = plain_data_size sealed plain ∧
        (v.recv_frame N (buf + 2) sealed.length size).2.mem.read (buf + 2) sealed.length =
          opened sealed plain := by
  have hmem := v.mem.read_write_over (buf + 2) sealed.length (show plain.length ≤ sealed.length by omega)
  rw [hread] at hmem
  have hsize : be16 ((v.mem.write (buf + 2) plain).byte (buf + 2))
      ((v.mem.write (buf + 2) plain).byte (buf + 2 + 1)) = plain_data_size sealed plain := by
    obtain ⟨b0, b1, tail, hcons⟩ := opened_eq_cons hlen
    have hbytes : (v.mem.write (buf + 2) plain).read (buf + 2) sealed.length = b0 :: b1 :: tail :=
      hmem.trans hcons
    have hfirst : (v.mem.write (buf + 2) plain).byte (buf + 2) = b0 :=
      Memory.byte_of_getElem?_read (i := 0) (by rw [hbytes]; rfl)
    have hsecond : (v.mem.write (buf + 2) plain).byte (buf + 2 + 1) = b1 :=
      Memory.byte_of_getElem?_read (i := 1) (by rw [hbytes]; rfl)
    simp only [hfirst, hsecond, plain_data_size, hcons]
  by_cases hbig : size < plain_data_size sealed plain
  · refine .inl ⟨hbig, ?_⟩
    unfold recv_frame
    rw [hread, hopen]
    dsimp only
    rw [if_neg (by simp), hsize, if_pos hbig]
  · refine .inr ⟨Nat.le_of_not_lt hbig, ?_⟩
    unfold recv_frame
    rw [hread, hopen]
    dsimp only
    rw [if_neg (by simp), hsize, if_neg hbig]
    exact ⟨rfl, hmem⟩

theorem recv_frame_ne_again (start len size : Nat) (w : Endpoint S) :
    (w.recv_frame N start len size).1 ≠ NGX_AGAIN := by
  unfold recv_frame
  dsimp only
  split_ifs
  · simp
  · simp
  · simp only [NGX_AGAIN]
    omega

/-- What the calls return for a frame. -/
theorem recvFirst_frame (hfuel : 65536 ≤ fuel) (hbuf : buf ≠ 0) {r : Int × Endpoint S}
    (h : RecvFirst N fuel buf size w r)
    (hw : Receiver buf w (lenBytes sealed.length ++ sealed ++ rest))
    (hpos : 0 < sealed.length) (hfits : sealed.length < 65536) :
    ∃ v : Endpoint S, r = v.recv_frame N (buf + 2) sealed.length size ∧
      v.mem.read (buf + 2) sealed.length = sealed ∧ v.noise = w.noise := by
  induction h with
  | @now w r hcall hn =>
    have hend : FrameEnd N buf size sealed rest w (w.recv N fuel buf size) :=
      recv_of_frame hfuel hbuf hw hpos hfits
    generalize w.recv N fuel buf size = result at hcall hend
    cases hend with
    | whole hv hread hnoise =>
      cases hcall
      exact ⟨_, rfl, hread, hnoise⟩
    | paused =>
      cases hcall
      exact absurd rfl hn
  | @later w u r hcall hrest ih =>
    have hend : FrameEnd N buf size sealed rest w (w.recv N fuel buf size) :=
      recv_of_frame hfuel hbuf hw hpos hfits
    generalize w.recv N fuel buf size = result at hcall hend
    cases hend with
    | @whole v hv hread hnoise =>
      have hagain := v.recv_frame_ne_again (N := N) (buf + 2) sealed.length size
      rw [Result.ok.inj hcall] at hagain
      exact absurd rfl hagain
    | paused hnoise hu =>
      cases hcall
      obtain ⟨v, hr, hread, hnoise'⟩ := ih hu
      exact ⟨v, hr, hread, hnoise'.trans hnoise⟩

/-- The calls do return for a frame: each call that does not uses up a pause. -/
theorem recvFirst_exists (size : Nat) (hfuel : 65536 ≤ fuel) (hbuf : buf ≠ 0)
    (hw : Receiver buf w (lenBytes sealed.length ++ sealed ++ rest))
    (hpos : 0 < sealed.length) (hfits : sealed.length < 65536) :
    ∃ r, RecvFirst N fuel buf size w r := by
  induction hpauses : w.env.rx.pauses generalizing w with
  | zero =>
    have hend : FrameEnd N buf size sealed rest w (w.recv N fuel buf size) :=
      recv_of_frame hfuel hbuf hw hpos hfits
    generalize hcall : w.recv N fuel buf size = result at hend
    cases hend with
    | whole => exact ⟨_, .now hcall (recv_frame_ne_again _ _ _ _)⟩
    | paused _ _ hless => omega
  | succ pauses ih =>
    have hend : FrameEnd N buf size sealed rest w (w.recv N fuel buf size) :=
      recv_of_frame hfuel hbuf hw hpos hfits
    generalize hcall : w.recv N fuel buf size = result at hend
    cases hend with
    | whole => exact ⟨_, .now hcall (recv_frame_ne_again _ _ _ _)⟩
    | paused _ hu hless =>
      obtain ⟨r, hr⟩ := ih hu (by omega)
      exact ⟨r, .later hcall hr⟩

/-- The bytes behind the inner length, once the frame is open in the buffer. -/
theorem read_opened {u : Endpoint S} {n : Nat} (hlen : sealed.length = plain.length + 16)
    (hmem : u.mem.read (buf + 2) sealed.length = opened sealed plain) (hn : n + 2 ≤ plain.length) :
    u.mem.read (buf + 4) n = (plain.drop 2).take n := by
  have hpart : u.mem.read (buf + 2 + 2) n = ((u.mem.read (buf + 2) sealed.length).drop 2).take n :=
    u.mem.read_part (by omega)
  rw [hmem, opened, List.drop_append_of_le_length (by omega), List.take_append_of_le_length] at hpart
  · exact hpart
  · rw [List.length_drop]
    omega

/-- What `ngx_nsoc_recv` hands over of a frame lies in the plaintext exactly when the inner
length does, or is too big for the caller. -/
theorem recv_within_iff (hfuel : 65536 ≤ fuel) (hbuf : buf ≠ 0)
    (hw : Receiver buf w (lenBytes sealed.length ++ sealed ++ rest)) (hfits : sealed.length < 65536)
    (hlen : sealed.length = plain.length + 16)
    (hopen : N.cipherstate_decrypt sealed w.noise = ((NOISE_ERROR_NONE, plain), noise)) :
    (∀ n u, RecvFirst N fuel buf size w (n, u) → 0 ≤ n →
        Within plain n (u.mem.read (buf + 4) n.toNat)) ↔
      (size < plain_data_size sealed plain ∨
        2 ≤ plain.length ∧ plain_data_size sealed plain ≤ plain.length - 2) := by
  constructor
  · intro hall
    obtain ⟨⟨n, u⟩, hr⟩ := recvFirst_exists (N := N) size hfuel hbuf hw (by omega) hfits
    obtain ⟨v, heq, hread, hnoise⟩ := recvFirst_frame hfuel hbuf hr hw (by omega) hfits
    rw [← hnoise] at hopen
    have hresult := recv_frame_opened size hread hlen hopen
    rw [← heq] at hresult
    obtain ⟨hbig, -⟩ | ⟨hle, hcode, -⟩ := hresult
    · exact .inl hbig
    · obtain rfl : n = plain_data_size sealed plain := hcode
      obtain ⟨hfield, hsize, -⟩ := hall _ u hr (by omega)
      exact .inr ⟨hfield, by omega⟩
  · intro hcond n u hr hn
    obtain ⟨v, heq, hread, hnoise⟩ := recvFirst_frame hfuel hbuf hr hw (by omega) hfits
    rw [← hnoise] at hopen
    have hresult := recv_frame_opened size hread hlen hopen
    rw [← heq] at hresult
    obtain ⟨-, hcode⟩ | ⟨hle, hcode, hmem⟩ := hresult
    · obtain rfl : n = NGX_ERROR := hcode
      simp at hn
    · obtain hbig | ⟨hfield, hinner⟩ := hcond
      · omega
      · obtain rfl : n = plain_data_size sealed plain := hcode
        refine ⟨hfield, by omega, ?_⟩
        rw [Int.toNat_natCast]
        exact read_opened hlen hmem (by omega)

end

/-- A payload of three bytes whose frame comes in two parts. -/
theorem within_of_three_bytes :
    ∃ u, RecvFirst pattern_xx 65536 100 16
        (pattern_server [.data 0 [21, 0, 3], .again, .data 1 ([2, 3] ++ Pattern.tag)] false) (3, u) ∧
      Within [0, 3, 1, 2, 3] 3 (u.mem.read 104 3) := by
  have hreceiver : Receiver 100 (pattern_server
      [.data 0 [21, 0, 3], .again, .data 1 ([2, 3] ++ Pattern.tag)] false)
      (lenBytes ([0, 3, 1, 2, 3] ++ Pattern.tag).length ++ ([0, 3, 1, 2, 3] ++ Pattern.tag) ++ []) :=
    ⟨⟨rfl, by decide, rfl, rfl, by decide⟩, .between rfl rfl⟩
  have hopen : pattern_xx.cipherstate_decrypt ([0, 3, 1, 2, 3] ++ Pattern.tag) ⟨.responder, 0⟩ =
      ((NOISE_ERROR_NONE, [0, 3, 1, 2, 3]), ⟨.responder, 0⟩) := rfl
  have hcalls : ∃ u, RecvFirst pattern_xx 65536 100 16
      (pattern_server [.data 0 [21, 0, 3], .again, .data 1 ([2, 3] ++ Pattern.tag)] false) (3, u) :=
    ⟨_, .later rfl (.now rfl (by simp))⟩
  obtain ⟨u, hu⟩ := hcalls
  refine ⟨u, hu, ?_⟩
  refine (recv_within_iff (Nat.le_refl 65536) (by decide) hreceiver (by decide) ?_ hopen).mpr ?_ 3 u hu
    (by decide)
  · rfl
  · decide

/-- A frame of two bytes of plaintext, the inner length 5: five bytes of the tag are handed
over. -/
theorem not_within_of_short_plain :
    ¬ ∀ n u, RecvFirst pattern_xx 65536 100 16
        (pattern_server [.data 0 ([18, 0, 5] ++ Pattern.tag)] false) (n, u) → 0 ≤ n →
      Within [0, 5] n (u.mem.read 104 n.toNat) := by
  intro hall
  have hcall : ∃ u, (pattern_server [.data 0 ([18, 0, 5] ++ Pattern.tag)] false).recv pattern_xx 65536
      100 16 = ok (5, u) := ⟨_, rfl⟩
  obtain ⟨u, hcall⟩ := hcall
  have hwithin := hall 5 u (.now hcall (by simp)) (by decide)
  exact absurd hwithin.size (by decide)

end Endpoint

end ngx_nsoc
