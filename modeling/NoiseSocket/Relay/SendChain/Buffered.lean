import NoiseSocket.Relay.SendChain.Unbuffered

open Exec Exec.Result

namespace ngx_nsoc

variable {S : Type}

namespace NoiseDst

section

variable {heap : Heap} {limit : Int} {passes : Nat} {u r : Buffered S} {front back : List Nat} {i : Nat}

/-- There is room for another link. -/
structure Open (limit : Int) (u : Buffered S) : Prop where
  room : u.buf.last < u.buf.stop
  limit : u.send < limit

theorem fill_of_full (hfull : u.buf.stop ≤ u.buf.last) : fill_body heap limit u = ok (.done u) := by
  unfold fill_body
  cases u.chain with
  | nil => rfl
  | cons i chain => simp only [hfull, true_or, if_true]

/-- Links without bytes only set the flag. -/
theorem fill_skips (hopen : Open limit u) (hchain : u.chain = front ++ back)
    (hspecial : u.links.Special front) (hbuilt : ∀ j ∈ front, (u.links.buf j).Built)
    (h : loop (fill_body heap limit) passes u = ok r) :
    ∃ passes flush, (u.flush = true ∨ front ≠ [] → flush = true) ∧
      loop (fill_body heap limit) passes { u with chain := back, flush } = ok r := by
  induction front generalizing u passes with
  | nil =>
    obtain ⟨chain, links, d, buf, send, flush⟩ := u
    obtain rfl : chain = back := hchain
    exact ⟨passes, flush, fun hflush => hflush.resolve_right (by simp), h⟩
  | cons j front ih =>
    cases passes with
    | zero => cases h
    | succ passes =>
      have hflush := (hbuilt j List.mem_cons_self).flush
      have hroom : ¬ (u.buf.stop ≤ u.buf.last ∨ limit ≤ u.send) := by
        have hlast := hopen.room
        have hsend := hopen.limit
        omega
      have hbody : fill_body heap limit u = ok (.cont { u with chain := front ++ back, flush := true }) := by
        unfold fill_body
        simp only [hchain, List.cons_append, hroom, if_false, hspecial j List.mem_cons_self, if_true,
          hflush, Bool.or_true]
      rw [loop_of_cont hbody] at h
      obtain ⟨passes', flush, hset, hloop⟩ := ih (u := { u with chain := front ++ back, flush := true })
        ⟨hopen.room, hopen.limit⟩ rfl (fun k hk => hspecial k (List.mem_cons_of_mem _ hk))
        (fun k hk => hbuilt k (List.mem_cons_of_mem _ hk)) h
      exact ⟨passes', flush, fun _ => hset (.inl rfl), hloop⟩

/-- A chain without bytes. -/
theorem fill_of_special (hopen : Open limit u) (hspecial : u.links.Special u.chain)
    (hbuilt : ∀ j ∈ u.chain, (u.links.buf j).Built) (h : loop (fill_body heap limit) passes u = ok r) :
    ∃ flush, (u.flush = true ∨ u.chain ≠ [] → flush = true) ∧ r = { u with chain := [], flush } := by
  obtain ⟨passes', flush, hflush, hloop⟩ :=
    fill_skips hopen (List.append_nil _).symm hspecial hbuilt h
  refine ⟨flush, hflush, ?_⟩
  cases passes' with
  | zero => cases hloop
  | succ passes' =>
    rw [loop_of_done (Nat.succ_pos _) rfl] at hloop
    exact (Result.ok.inj hloop).symm

/-- What is copied from the link with bytes into the empty `nc->buf`: all of it, from the room for the
two length fields on, or as much as there is room for. -/
theorem fill_of_link {room : Nat} (hbuilt : (u.links.buf i).Built)
    (hspecial : (u.links.buf i).ngx_buf_special = false) (hchain : u.chain = i :: back)
    (hback : u.links.Special back) (hbacks : ∀ j ∈ back, (u.links.buf j).Built)
    (hsend : u.send = 0) (hlast : u.buf.last = u.buf.start) (hstop : u.buf.stop = u.buf.start + room)
    (hroom : 0 < room) (hlimit : (room : Int) ≤ limit)
    (h : loop (fill_body heap limit) passes u = ok r) :
    r.flush = true ∧ r.d.w.nc = u.d.w.nc ∧ r.d.calls = u.d.calls ∧ r.d.buf = u.d.buf ∧
      ∃ size, r.buf = { u.buf with last := u.buf.start + size } ∧
        r.d.w.mem.read u.buf.start size =
          (heap.block (u.links.buf i)).read (u.links.buf i).start size ∧
        (size = (u.links.buf i).last - (u.links.buf i).start ∧ size < room ∧ r.chain = [] ∨
          size = room ∧ size ≤ (u.links.buf i).last - (u.links.buf i).start) := by
  have hbytes := hbuilt.size (by simpa [hbuilt.special] using hspecial)
  have hstart := hbuilt.start
  obtain ⟨chain, links, d, ⟨start, pos, last, stop⟩, send, flush⟩ := u
  dsimp only at hbuilt hspecial hchain hback hbacks hsend hlast hstop hbytes hstart ⊢
  subst hchain hsend hlast
  cases passes with
  | zero => cases h
  | succ passes =>
    generalize hsize : min ((links.buf i).last - (links.buf i).start) room = size
    have hbody : fill_body heap limit ⟨i :: back, links, d, ⟨last, pos, last, stop⟩, 0, flush⟩ =
        ok (.cont
          { chain := if (links.buf i).start + size = (links.buf i).last then back else i :: back
            links := links.set i { links.buf i with pos := (links.buf i).start + size }
            d := { d with w := { d.w with
              mem := d.w.mem.write last ((heap.block (links.buf i)).read (links.buf i).start size) } }
            buf := ⟨last, pos, last + size, stop⟩
            send := 0 + size - 2 * NGX_NSOC_LEN_FIELD_SIZE
            flush := true }) := by
      have hleft : stop - last = room := by omega
      have hopen : ¬ (stop ≤ last ∨ limit ≤ 0) := by omega
      have hfits : ¬ limit < 0 + (size : Int) := by omega
      unfold fill_body
      simp only [hopen, if_false, hspecial, Bool.false_eq_true, hleft, hsize, hfits, hbuilt.flush,
        Bool.or_true]
    rw [loop_of_cont hbody] at h
    have hcopied := d.w.mem.read_write_self last ((heap.block (links.buf i)).read (links.buf i).start size)
    rw [Memory.length_read] at hcopied
    by_cases hshort : (links.buf i).last - (links.buf i).start < room
    · -- the whole link, and then those behind it
      obtain rfl : size = (links.buf i).last - (links.buf i).start := by omega
      rw [if_pos (by omega)] at h
      obtain ⟨flush', hflush', rfl⟩ := fill_of_special ⟨by dsimp only; omega, by dsimp only; omega⟩
        (hback.set hspecial _)
        (fun j hj => by rw [hback.buf_set hspecial _ j hj]; exact hbacks j hj) h
      exact ⟨hflush' (.inl rfl), rfl, rfl, rfl, _, rfl, hcopied, .inl ⟨rfl, hshort, rfl⟩⟩
    · -- as much as fits
      obtain rfl : size = room := by omega
      cases passes with
      | zero => cases h
      | succ passes =>
        rw [loop_of_done (Nat.succ_pos _) (fill_of_full (Nat.le_of_eq hstop))] at h
        cases h
        exact ⟨rfl, rfl, rfl, rfl, _, rfl, hcopied, .inr ⟨rfl, by omega⟩⟩

end

section

variable {N : NoiseC S} {fuel passes : Nat} {limit : Int} {links : Links} {heap : Heap} {d : NoiseDst S}
  {buf : RawBuf} {chain : List Nat}

/-- What was copied, from behind the two length fields on. -/
theorem read_of_copied {m m' : Memory} {addr addr' size : Nat} (h : m.read addr size = m'.read addr' size) :
    m.read (addr + 4) (size - 4) = m'.read (addr' + 4) (size - 4) := by
  by_cases hsize : 4 ≤ size
  · have hfits : 4 + (size - 4) ≤ size := by omega
    rw [m.read_part hfits, m'.read_part hfits, h]
  · rw [Nat.sub_eq_zero_of_le (by omega)]
    rfl

/-- A call without bytes in its chain has nothing to send. -/
theorem buffered_of_special {u : Buffered S} {r : Option (List Nat) × Buffered S}
    (hflush : u.flush = true) (hempty : u.buf.last = u.buf.pos)
    (hfill : loop (fill_body heap limit) fuel (start_buffered chain links d buf) = ok u)
    (h : loop (buffered_body N fuel heap limit) passes (start_buffered chain links d buf) = ok r) :
    r = keep { u with flush := false } := by
  cases passes with
  | zero => cases h
  | succ passes =>
    have hbody : buffered_body N fuel heap limit (start_buffered chain links d buf) =
        ok (.done (keep { u with flush := false })) := by
      unfold buffered_body
      rw [hfill, bind_ok, if_neg (by simp [hflush])]
      simp only [hempty, Nat.sub_self, if_true]
    rw [loop_of_done (Nat.succ_pos _) hbody] at h
    exact (Result.ok.inj h).symm

/-- How a call ends that has filled `nc->buf` with `u.buf.last - u.buf.pos` bytes. -/
inductive Offered (u : Buffered S) (payload : List UInt8) (size : Nat) :
    Option (List Nat) × Buffered S → Prop where
  | failed {r : Buffered S} (hcalls : framed r.d.calls = framed u.d.calls ++ payload) :
      Offered u payload size (none, r)
  | kept {r : Buffered S} (hcalls : framed r.d.calls = framed u.d.calls ++ payload)
      (hadmitted : size - 4 ≤ u.d.w.nc.buffer_size)
      (hsize : r.d.w.nc.buffer_size = u.d.w.nc.buffer_size) (hto_send : r.d.w.nc.to_send ≠ 0) :
      Offered u payload size (some u.chain, r)
  | whole {r : Buffered S} (hcalls : framed r.d.calls = framed u.d.calls ++ payload)
      (hadmitted : size - 4 ≤ u.d.w.nc.buffer_size)
      (hsize : r.d.w.nc.buffer_size = u.d.w.nc.buffer_size)
      (hidle : r.d.w.nc.to_send = 0 ∧ (u.d.w.nc.send_buf = none → r.d.w.nc.send_buf = none) ∧
        r.d.buf = some { u.buf with pos := u.buf.start, last := u.buf.start }) :
      Offered u payload size (some [], r)

theorem buffered_of_filled {u : Buffered S} {r : Option (List Nat) × Buffered S} {size : Nat}
    (hflush : u.flush = true) (hsize : u.buf.last - u.buf.pos = size) (hpos : 0 < size)
    (hchain : size - 4 ≤ u.d.w.nc.buffer_size → u.chain = [])
    (hfill : loop (fill_body heap limit) fuel (start_buffered chain links d buf) = ok u)
    (h : loop (buffered_body N fuel heap limit) passes (start_buffered chain links d buf) = ok r) :
    Offered u (u.d.w.mem.read (u.buf.pos + 4) (size - 4)) size r := by
  cases passes with
  | zero => cases h
  | succ passes =>
    rw [loop_succ, bind_eq_ok_iff] at h
    obtain ⟨flow, hbody, hrest⟩ := h
    unfold buffered_body at hbody
    rw [hfill, bind_ok, if_neg (by simp [hflush])] at hbody
    simp only [hsize, Nat.ne_of_gt hpos, if_false, bind_eq_ok_iff] at hbody
    obtain ⟨sent, hsend, hflow⟩ := hbody
    have hsends := sends_of_send hsend
    have hsame : sent.2.2.w.nc.buffer_size = u.d.w.nc.buffer_size := by rw [hsends.nc]
    split_ifs at hflow with herror hagain hshort hdone
    · cases hflow
      cases hrest
      exact .failed hsends.calls
    · cases hflow
      cases hrest
      exact .kept hsends.calls (hsends.admitted herror) hsame (hsends.under_way (.inr hagain))
    · have hzero : sent.1 = 0 := by
        obtain hcode | hzero | hcode | hcode := hsends.code
        · omega
        · exact hzero
        · exact absurd hcode hagain
        · exact absurd hcode herror
      cases hflow
      cases hrest
      exact .kept hsends.calls (hsends.admitted herror) hsame (hsends.under_way (.inl hzero))
    · have hall : sent.1 = (size : Nat) := by
        obtain hcode | hzero | hcode | hcode := hsends.code
        · exact hcode
        · omega
        · exact absurd hcode hagain
        · exact absurd hcode herror
      cases hflow
      cases hrest
      rw [keep, hchain (hsends.admitted herror)]
      exact .whole hsends.calls (hsends.admitted herror) hsame ⟨hsends.sent hall, hsends.kept, rfl⟩
    · exact absurd (.inl (hchain (hsends.admitted herror))) hdone

/-- A call with `nc->buffer`. -/
theorem passed_buffered {r : Option (List Nat) × Buffered S} (hidle : d.Idle) (hbuf : d.buf = some buf)
    (hbuilt : ∀ i ∈ chain, (links.buf i).Built) (hlone : Lone links chain)
    (hlimit : (d.w.nc.buffer_size + NOISE_PROTOCOL_MAC_DATA_SIZE + 2 * NGX_NSOC_LEN_FIELD_SIZE : Nat) ≤ limit)
    (h : loop (buffered_body N fuel heap limit) passes (start_buffered chain links d buf) = ok r) :
    Passed links heap chain d r.2.d r.1 := by
  obtain ⟨hpos, hlast, hstop⟩ := hidle.buf buf hbuf
  simp only [NOISE_PROTOCOL_MAC_DATA_SIZE, NGX_NSOC_LEN_FIELD_SIZE] at hstop hlimit
  obtain ⟨u, hfill⟩ : ∃ u, loop (fill_body heap limit) fuel (start_buffered chain links d buf) = ok u := by
    cases passes with
    | zero => cases h
    | succ passes =>
      rw [loop_succ, bind_eq_ok_iff] at h
      obtain ⟨flow, hbody, -⟩ := h
      obtain ⟨u, hfill, -⟩ := bind_eq_ok_iff.mp hbody
      exact ⟨u, hfill⟩
  have hempty : buf.last - buf.pos = 0 := by omega
  have hopen : Open limit (start_buffered chain links d buf) := by
    refine ⟨by simp only [start_buffered]; omega, ?_⟩
    simp only [start_buffered, hempty]
    omega
  obtain hspecial | ⟨front, i, back, rfl, hfront, hi, hback⟩ := Links.special_or_lone hlone.one
  · obtain ⟨flush, hflush, rfl⟩ := fill_of_special hopen hspecial hbuilt hfill
    have hset : flush = true := by
      apply hflush
      by_cases hnil : chain = []
      · exact .inl (by simp [start_buffered, hnil])
      · exact .inr hnil
    rw [buffered_of_special hset (by simp only [start_buffered]; omega) hfill h]
    refine .returned (List.append_nil chain).symm ?_ rfl fun _ => ⟨hidle.to_send, hidle.send_buf, ?_⟩
    · simp [hspecial.contents, under_way, keep, start_buffered]
    · rintro b ⟨⟩
      exact hidle.buf buf hbuf
  · have hmem : i ∈ front ++ i :: back := List.mem_append_right _ List.mem_cons_self
    have hlink := hbuilt i hmem
    have hsize := hlink.size (by simpa [hlink.special] using hi)
    have hregion : (heap.block (links.buf i)).read ((links.buf i).start + 4)
        ((links.buf i).last - (links.buf i).start - 4) = heap.region (links.buf i) :=
      read_eq_region hlink hi (hlone.front i hmem hi)
    have hfour := hlone.front i hmem hi
    simp only [NGX_NSOC_LEN_FIELD_SIZE] at hfour
    obtain ⟨passes', flush, -, hloop⟩ := fill_skips hopen rfl hfront
      (fun j hj => hbuilt j (List.mem_append_left _ hj)) hfill
    have hroom : buf.stop = buf.start + (d.w.nc.buffer_size + 16 + 2 * 2) := by omega
    obtain ⟨hflush, hnc, hcalls, hdbuf, size, hubuf, hcopied, hsizes⟩ :=
      fill_of_link hlink hi rfl hback
        (fun j hj => hbuilt j (List.mem_append_right _ (List.mem_cons_of_mem _ hj)))
        (by simp [start_buffered, hempty]) hlast hroom (by omega) hlimit hloop
    simp only [start_buffered] at hnc hcalls hubuf hcopied hsizes
    have hfilled : u.buf.last - u.buf.pos = size := by
      rw [hubuf]
      simp only
      omega
    have hchain : size - 4 ≤ u.d.w.nc.buffer_size → u.chain = [] := by
      intro hadmitted
      rw [hnc] at hadmitted
      obtain ⟨-, -, hchain⟩ | ⟨hfull, -⟩ := hsizes
      · exact hchain
      · omega
    have hwhole : size - 4 ≤ u.d.w.nc.buffer_size →
        u.d.w.mem.read (u.buf.pos + 4) (size - 4) = links.contents heap (front ++ i :: back) := by
      intro hadmitted
      rw [hnc] at hadmitted
      obtain ⟨rfl, -, -⟩ | ⟨hfull, -⟩ := hsizes
      · rw [contents_of_lone hfront hback, ← hregion, hubuf]
        simp only [hpos]
        exact read_of_copied hcopied
      · omega
    have hoffered := buffered_of_filled hflush hfilled (by omega) hchain hfill h
    generalize hpayload : u.d.w.mem.read (u.buf.pos + 4) (size - 4) = payload at hoffered hwhole
    cases hoffered with
    | failed hframed =>
      refine .failed (?_ : payload <+: _) ?_
      · have hmore : (links.buf i).last - (links.buf i).start - 4 =
            (size - 4) + ((links.buf i).last - (links.buf i).start - size) := by omega
        rw [contents_of_lone hfront hback, ← hregion, hmore, Memory.read_add, ← hpayload, hubuf]
        simp only [hpos]
        rw [read_of_copied hcopied]
        exact List.prefix_append _ _
      · rw [← hcalls]
        exact hframed
    | kept hframed hadmitted hbuffer_size hto_send =>
      rw [hnc] at hbuffer_size
      rw [hchain hadmitted]
      refine .returned (List.append_nil _).symm ?_ hbuffer_size fun hzero => absurd hzero hto_send
      rw [hframed, hcalls, hwhole hadmitted]
      simp [under_way]
    | whole hframed hadmitted hbuffer_size hdone =>
      obtain ⟨hto_send, hsend_buf, hdone⟩ := hdone
      rw [hnc] at hsend_buf hbuffer_size
      refine .returned (List.append_nil _).symm ?_ hbuffer_size fun _ => ⟨hto_send, hsend_buf hidle.send_buf, ?_⟩
      · rw [hframed, hcalls, hwhole hadmitted]
        simp [under_way]
      · intro b hb
        rw [hdone] at hb
        cases hb
        rw [hbuffer_size, hubuf]
        exact ⟨rfl, rfl, (hidle.buf buf hbuf).2.2⟩

end

end NoiseDst

end ngx_nsoc
