import NoiseSocket.Relay.Halves
import NoiseSocket.Relay.Run
import NoiseSocket.Relay.SendChain.Buffered
import NoiseSocket.Relay.Sizes

open Exec Exec.Result

namespace ngx_nsoc

variable {S : Type}

namespace Links

/-- What a link takes of `nc->buf`: it is copied from the start of its buffer on, with the room for the
two length fields and with whatever lies between these and its bytes. -/
def span (l : Links) (i : Nat) : Nat :=
  if (l.buf i).ngx_buf_special then 0 else (l.buf i).last - (l.buf i).start

/-- What the links of a chain take of `nc->buf`. -/
def spans (l : Links) (chain : List Nat) : Nat := (chain.map l.span).sum

theorem Moved.span_eq {l l' : Links} (h : Moved l l') (i : Nat) : l'.span i = l.span i := by
  obtain ⟨pos, hbuf⟩ := h.buf i
  simp [span, hbuf, ChainBuf.ngx_buf_special]

end Links

namespace NoiseDst

/-- No call of `ngx_nsoc_write` was refused because of its size. -/
def Admitted (d : NoiseDst S) : Prop := ∀ call ∈ d.calls, call.data_size ≤ call.buffer_size

/-- What waits in `nc->buf`. -/
def pending (d : NoiseDst S) : Nat :=
  match d.buf with
  | none => 0
  | some buf => buf.last - buf.pos

/-- `nc->buf` has room for a frame, and nothing of it was sent. -/
def Whole (d : NoiseDst S) : Prop :=
  ∀ buf, d.w.nc.buffer = true → d.buf = some buf → buf.pos = buf.start ∧ buf.start ≤ buf.last ∧
    buf.stop = buf.start + d.w.nc.buffer_size + NOISE_PROTOCOL_MAC_DATA_SIZE + 2 * NGX_NSOC_LEN_FIELD_SIZE

/-- What a call leaves of a connection. -/
structure Kept (d d' : NoiseDst S) : Prop where
  admitted : d'.Admitted
  buffer_size : d'.w.nc.buffer_size = d.w.nc.buffer_size
  buffer : d'.w.nc.buffer = d.w.nc.buffer

theorem Kept.trans {d d' d'' : NoiseDst S} (h : Kept d d') (h' : Kept d' d'') : Kept d d'' :=
  ⟨h'.admitted, h'.buffer_size.trans h.buffer_size, h'.buffer.trans h.buffer⟩

section

variable {N : NoiseC S} {fuel passes : Nat} {d : NoiseDst S} {links : Links} {heap : Heap}
  {chain : List Nat}

/-- A block that the size guard of `ngx_nsoc_write` admits. -/
theorem kept_send {mem : Memory} {data size : Nat} {sent : Int × Memory × NoiseDst S} (hd : d.Admitted)
    (hsize : size - 2 * NGX_NSOC_LEN_FIELD_SIZE ≤ d.w.nc.buffer_size)
    (h : d.send N fuel mem data size = ok sent) : Kept d sent.2.2 := by
  have hsends := sends_of_send h
  obtain ⟨r, -, hrest⟩ := bind_eq_ok_iff.mp h
  refine ⟨?_, by rw [hsends.nc], by rw [hsends.nc]⟩
  cases hrest
  intro call hcall
  obtain rfl | hcall := List.mem_cons.mp hcall
  · exact hsize
  · exact hd call hcall

/-- A chain whose links all fit, where blocks are not put together. -/
theorem kept_unbuffered {r : Option (List Nat) × Unbuffered S} (hd : d.Admitted)
    (hfits : ∀ i ∈ chain, links.span i - 2 * NGX_NSOC_LEN_FIELD_SIZE ≤ d.w.nc.buffer_size)
    (h : loop (unbuffered_body N fuel) passes ⟨chain, links, heap, d⟩ = ok r) :
    Kept d r.2.d ∧ Links.Moved links r.2.links ∧ ∀ rest, r.1 = some rest → rest ⊆ chain := by
  refine loop_holds (fun u => Kept d u.d ∧ Links.Moved links u.links ∧ u.chain ⊆ chain)
    (fun r => Kept d r.2.d ∧ Links.Moved links r.2.links ∧ ∀ rest, r.1 = some rest → rest ⊆ chain) ?_
    ⟨⟨hd, rfl, rfl⟩, .refl links, List.Subset.refl chain⟩ h
  rintro ⟨todo, links', heap', d'⟩ flow ⟨hkept, hmoved, htodo⟩ hbody
  cases todo with
  | nil =>
    cases hbody
    refine ⟨hkept, hmoved, ?_⟩
    rintro rest ⟨⟩
    exact List.nil_subset chain
  | cons i todo =>
    have hrest : todo ⊆ chain := fun j hj => htodo (List.mem_cons_of_mem i hj)
    unfold unbuffered_body at hbody
    dsimp only at hbody
    split_ifs at hbody with hspecial
    · cases hbody
      exact ⟨hkept, hmoved, hrest⟩
    · obtain ⟨sent, hsend, hflow⟩ := bind_eq_ok_iff.mp hbody
      have hsize : (links'.buf i).last - (links'.buf i).start - 2 * NGX_NSOC_LEN_FIELD_SIZE ≤
          d'.w.nc.buffer_size := by
        have hfit := hfits i (htodo List.mem_cons_self)
        rw [← hmoved.span_eq, Links.span, if_neg hspecial] at hfit
        rw [hkept.buffer_size]
        exact hfit
      have hsent := hkept.trans (kept_send hkept.admitted hsize hsend)
      have hstart := hmoved.trans (links'.moved_set i (links'.buf i).start)
      split_ifs at hflow with herror hagain hwhole
      · cases hflow
        exact ⟨hsent, hstart, nofun⟩
      · cases hflow
        refine ⟨hsent, hstart, ?_⟩
        rintro rest ⟨⟩
        exact htodo
      · cases hflow
        exact ⟨hsent, hmoved.trans ((links'.moved_set i _).set_again _), hrest⟩
      · cases hflow
        exact ⟨hsent, hmoved.trans ((links'.moved_set i _).set_again _), htodo⟩

/-- What the loop that fills `nc->buf` leaves where everything fits. -/
structure Filled (u r : Buffered S) : Prop where
  links : Links.Moved u.links r.links
  start : r.buf.start = u.buf.start
  pos : r.buf.pos = u.buf.pos
  stop : r.buf.stop = u.buf.stop
  last : r.buf.last + u.links.spans r.chain = u.buf.last + u.links.spans u.chain
  send : r.send + u.links.spans r.chain ≤ u.send + u.links.spans u.chain
  nc : r.d.w.nc = u.d.w.nc
  calls : r.d.calls = u.d.calls
  d_buf : r.d.buf = u.d.buf

theorem filled {u r : Buffered S} {limit : Int} (hroom : u.buf.last + u.links.spans u.chain < u.buf.stop)
    (hlimit : u.send + u.links.spans u.chain < limit)
    (h : loop (fill_body heap limit) passes u = ok r) : Filled u r ∧ r.chain = [] := by
  refine loop_holds (fun t => Filled u t) (fun t => Filled u t ∧ t.chain = []) ?_
    ⟨.refl _, rfl, rfl, rfl, rfl, Int.le_refl _, rfl, rfl, rfl⟩ h
  rintro ⟨todo, links', d', buf, send, flush⟩ flow hfilled hbody
  have hlast := hfilled.last
  have hsend := hfilled.send
  have hstop := hfilled.stop
  dsimp only at hlast hsend hstop
  cases todo with
  | nil =>
    cases hbody
    exact ⟨hfilled, rfl⟩
  | cons i todo =>
    have hcons : u.links.spans (i :: todo) = links'.span i + u.links.spans todo := by
      rw [hfilled.links.span_eq]
      rfl
    rw [hcons] at hlast hsend
    have hopen : ¬ (buf.stop ≤ buf.last ∨ limit ≤ send) := by omega
    unfold fill_body at hbody
    simp only [hopen, if_false] at hbody
    by_cases hspecial : (links'.buf i).ngx_buf_special
    · have hzero : links'.span i = 0 := if_pos hspecial
      rw [if_pos hspecial] at hbody
      cases hbody
      exact { hfilled with last := by dsimp only; omega, send := by dsimp only; omega }
    · have hspan : links'.span i = (links'.buf i).last - (links'.buf i).start := if_neg hspecial
      have hsize : min ((links'.buf i).last - (links'.buf i).start) (buf.stop - buf.last) =
          (links'.buf i).last - (links'.buf i).start := by omega
      have hwithin : ¬ limit < send + ((links'.buf i).last - (links'.buf i).start : Nat) := by omega
      rw [if_neg hspecial, hsize, if_neg hwithin] at hbody
      cases hbody
      have hmoved := hfilled.links.trans (links'.moved_set i
        ((links'.buf i).start + ((links'.buf i).last - (links'.buf i).start)))
      refine ⟨hmoved, hfilled.start, hfilled.pos, hfilled.stop, ?_, ?_, hfilled.nc, hfilled.calls,
        hfilled.d_buf⟩
      · dsimp only
        split_ifs
        · omega
        · rw [hcons]
          omega
      · dsimp only
        split_ifs
        · omega
        · rw [hcons]
          omega

/-- What a call of `ngx_nsoc_send_chain` leaves where nothing is refused. -/
structure Unrefused (chain : List Nat) (links : Links) (d : NoiseDst S)
    (r : Option (List Nat) × Links × NoiseDst S) : Prop where
  kept : Kept d r.2.2
  moved : Links.Moved links r.2.1
  rest : ∀ rest, r.1 = some rest → rest ⊆ chain ∧ (d.Whole → r.2.2.Whole)

/-- The end of a call that has taken its whole chain. -/
theorem unrefused_keep {v : Buffered S} (hkept : Kept d v.d) (hmoved : Links.Moved links v.links)
    (hchain : v.chain = []) (hpos : v.buf.pos = v.buf.start) (hstart : v.buf.start ≤ v.buf.last)
    (hstop : v.buf.stop = v.buf.start + d.w.nc.buffer_size + NOISE_PROTOCOL_MAC_DATA_SIZE +
      2 * NGX_NSOC_LEN_FIELD_SIZE) :
    Unrefused chain links d ((keep v).1, (keep v).2.links, (keep v).2.d) := by
  refine ⟨⟨hkept.admitted, hkept.buffer_size, hkept.buffer⟩, hmoved, ?_⟩
  rintro rest ⟨⟩
  rw [hchain]
  refine ⟨List.nil_subset chain, ?_⟩
  rintro - b - ⟨⟩
  rw [← hkept.buffer_size] at hstop
  exact ⟨hpos, hstart, hstop⟩

/-- A chain that fits into `nc->buf` with what waits there. -/
theorem unrefused_buffered {r : Option (List Nat) × Buffered S} {limit : Int} {buf : RawBuf}
    (hd : d.Admitted) (hwhole : d.Whole) (hbuffer : d.w.nc.buffer = true) (hbuf : d.buf = some buf)
    (hfits : d.pending + links.spans chain ≤ d.w.nc.buffer_size + 2 * NGX_NSOC_LEN_FIELD_SIZE)
    (hlimit : (d.w.nc.buffer_size + NOISE_PROTOCOL_MAC_DATA_SIZE + 2 * NGX_NSOC_LEN_FIELD_SIZE : Nat) ≤ limit)
    (h : loop (buffered_body N fuel heap limit) passes (start_buffered chain links d buf) = ok r) :
    Unrefused chain links d (r.1, r.2.links, r.2.d) := by
  obtain ⟨hpos, hstart, hstop⟩ := hwhole buf hbuffer hbuf
  have hpending : d.pending = buf.last - buf.pos := by rw [pending, hbuf]
  simp only [NOISE_PROTOCOL_MAC_DATA_SIZE, NGX_NSOC_LEN_FIELD_SIZE] at hfits hlimit hstop
  cases passes with
  | zero => cases h
  | succ passes =>
    rw [loop_succ, bind_eq_ok_iff] at h
    obtain ⟨flow, hbody, hrest⟩ := h
    unfold buffered_body at hbody
    obtain ⟨u, hfill, hsend⟩ := bind_eq_ok_iff.mp hbody
    obtain ⟨hfilled, hchain⟩ := filled (by simp only [start_buffered]; omega)
      (by simp only [start_buffered]; omega) hfill
    have hnc : u.d.w.nc = d.w.nc := hfilled.nc
    have hadmitted : u.d.Admitted := by
      intro call hcall
      rw [hfilled.calls] at hcall
      exact hd call hcall
    have hkept : Kept d u.d := ⟨hadmitted, by rw [hnc], by rw [hnc]⟩
    have hmoved : Links.Moved links u.links := hfilled.links
    have hlast := hfilled.last
    have hfrom := hfilled.start
    have hat := hfilled.pos
    have hto := hfilled.stop
    simp only [hchain, start_buffered] at hlast hfrom hat hto
    have hnone : links.spans [] = 0 := rfl
    have hsize : u.buf.last - u.buf.pos - 2 * NGX_NSOC_LEN_FIELD_SIZE ≤ u.d.w.nc.buffer_size := by
      rw [hnc]
      simp only [NGX_NSOC_LEN_FIELD_SIZE]
      omega
    have hkeep : ∀ v : Buffered S, Kept d v.d → v.links = u.links → v.chain = [] →
        v.buf.pos = v.buf.start → v.buf.start ≤ v.buf.last → v.buf.stop = u.buf.stop →
        v.buf.start = u.buf.start → Unrefused chain links d ((keep v).1, (keep v).2.links, (keep v).2.d) := by
      intro v hkept hlinks hchain hpos hstart hstop' hstart'
      rw [← hlinks] at hmoved
      refine unrefused_keep hkept hmoved hchain hpos hstart ?_
      simp only [NOISE_PROTOCOL_MAC_DATA_SIZE, NGX_NSOC_LEN_FIELD_SIZE]
      omega
    have hposu : u.buf.pos = u.buf.start := by omega
    have hstartu : u.buf.start ≤ u.buf.last := by omega
    have hdone : u.chain = [] ∨ u.send = limit := .inl hchain
    simp only [hdone, if_true] at hsend
    split_ifs at hsend with hmore hempty
    · cases hsend
      cases hrest
      exact hkeep u hkept rfl hchain hposu hstartu rfl rfl
    · cases hsend
      cases hrest
      exact hkeep { u with flush := false } hkept rfl hchain hposu hstartu rfl rfl
    · obtain ⟨sent, hcall, hflow⟩ := bind_eq_ok_iff.mp hsend
      have hsent := hkept.trans (kept_send hadmitted hsize hcall)
      have hcode := (sends_of_send hcall).code
      have hsent' : ∀ mem, Kept d { sent.2.2 with w := { sent.2.2.w with mem } } := fun mem =>
        ⟨hsent.admitted, hsent.buffer_size, hsent.buffer⟩
      split_ifs at hflow with herror hagain hshort
      · cases hflow
        cases hrest
        refine ⟨⟨hsent.admitted, hsent.buffer_size, hsent.buffer⟩, hmoved, ?_⟩
        intro y hy
        cases hy
      · cases hflow
        cases hrest
        exact hkeep { u with d := _ } (hsent' _) rfl hchain hposu hstartu rfl rfl
      · have hzero : sent.1.toNat = 0 := by
          obtain hcode | hcode | hcode | hcode := hcode
          all_goals omega
        cases hflow
        cases hrest
        rw [hzero]
        exact hkeep { u with d := _, buf := _ } (hsent' _) rfl hchain hposu hstartu rfl rfl
      · cases hflow
        cases hrest
        exact hkeep { u with d := _, buf := _, flush := _ } (hsent' _) rfl hchain rfl (Nat.le_refl _) rfl rfl

/-- The allocation of `nc->buf` adds nothing that waits. -/
theorem alloc_buf_whole {d' : NoiseDst S} {buf : Option RawBuf} (hwhole : d.Whole)
    (h : d.alloc_buf = (buf, d')) : d'.calls = d.calls ∧ d'.w.nc = d.w.nc ∧ d'.pending = d.pending ∧
      d'.Whole ∧ (buf ≠ none → d'.buf = buf) := by
  unfold alloc_buf at h
  cases hbuf : d.buf with
  | some b =>
    rw [hbuf] at h
    cases h
    exact ⟨rfl, rfl, rfl, hwhole, fun _ => hbuf⟩
  | none =>
    have hzero : d.pending = 0 := by rw [pending, hbuf]
    rw [hbuf] at h
    dsimp only at h
    split_ifs at h
    · cases h
      refine ⟨rfl, rfl, hzero.symm, ?_, fun _ => rfl⟩
      rintro b - ⟨⟩
      exact ⟨rfl, Nat.le_refl _, rfl⟩
    · cases h
      refine ⟨rfl, rfl, hzero.symm, ?_, fun hnot => absurd rfl hnot⟩
      rintro b - ⟨⟩

/-- What there must be room for in a call of `ngx_nsoc_send_chain`: for the whole chain with what waits
where blocks are put together, and else for each block. -/
def Fits (d : NoiseDst S) (chain : List Nat) (links : Links) : Prop :=
  if d.w.nc.buffer then d.pending + links.spans chain ≤ d.w.nc.buffer_size + 2 * NGX_NSOC_LEN_FIELD_SIZE
  else ∀ i ∈ chain, links.span i ≤ d.w.nc.buffer_size + 2 * NGX_NSOC_LEN_FIELD_SIZE

theorem unrefused_send_chain {r : Option (List Nat) × Links × Heap × NoiseDst S} {limit : Int}
    (hd : d.Admitted) (hwhole : d.Whole) (hfits : d.Fits chain links)
    (hlimit : (d.w.nc.buffer_size + NOISE_PROTOCOL_MAC_DATA_SIZE + 2 * NGX_NSOC_LEN_FIELD_SIZE : Nat) ≤ limit)
    (h : d.send_chain N fuel limit chain links heap = ok r) :
    Unrefused chain links d (r.1, r.2.1, r.2.2.2) := by
  have hself : Kept d d := ⟨hd, rfl, rfl⟩
  unfold send_chain at h
  by_cases hconnection : d.w.nc.connection ≠ d.w.c.id
  · rw [if_pos hconnection] at h
    cases h
    exact ⟨hself, .refl links, nofun⟩
  · rw [if_neg hconnection] at h
    cases hbuffer : d.w.nc.buffer with
    | false =>
      rw [Fits, hbuffer, if_neg Bool.false_ne_true] at hfits
      rw [hbuffer, if_pos Bool.false_ne_true] at h
      obtain ⟨s, hloop, hrest⟩ := bind_eq_ok_iff.mp h
      cases hrest
      obtain ⟨hkept, hmoved, hrests⟩ := kept_unbuffered hd (fun i hi => by
        have hfit := hfits i hi
        omega) hloop
      refine ⟨hkept, hmoved, fun rest hr => ⟨hrests rest hr, fun _ b hb => ?_⟩⟩
      have hnot : s.2.d.w.nc.buffer = false := hkept.buffer.trans hbuffer
      exact absurd (hnot.symm.trans hb) Bool.false_ne_true
    | true =>
      rw [Fits, hbuffer, if_pos rfl] at hfits
      rw [hbuffer, if_neg (not_not.mpr rfl)] at h
      cases halloc : d.alloc_buf with
      | mk buf d' =>
        obtain ⟨hcalls, hnc, hpending, hwhole', hbuf⟩ := alloc_buf_whole hwhole halloc
        have hd' : d'.Admitted := by
          rw [Admitted, hcalls]
          exact hd
        rw [halloc] at h
        cases buf with
        | none =>
          cases h
          exact ⟨⟨hd', by rw [hnc], by rw [hnc]⟩, .refl links, nofun⟩
        | some buf =>
          obtain ⟨s, hloop, hrest⟩ := bind_eq_ok_iff.mp h
          cases hrest
          rw [← hpending, ← hnc] at hfits
          rw [← hnc] at hlimit hbuffer
          obtain ⟨hkept, hmoved, hrests⟩ :=
            unrefused_buffered hd' hwhole' hbuffer (hbuf (by simp)) hfits hlimit hloop
          refine ⟨⟨hkept.admitted, ?_, ?_⟩, hmoved, fun rest hr => ?_⟩
          · rw [← hnc]
            exact hkept.buffer_size
          · rw [← hnc]
            exact hkept.buffer
          · obtain ⟨hsubset, hwhole''⟩ := hrests rest hr
            exact ⟨hsubset, fun _ => hwhole'' hwhole'⟩

end

end NoiseDst

namespace NoiseDst

theorem Fresh.admitted {d : NoiseDst S} (h : d.Fresh) : d.Admitted := by
  intro call hcall
  rw [h.calls] at hcall
  cases hcall

theorem Fresh.whole {d : NoiseDst S} (h : d.Fresh) : d.Whole := by
  intro buf _ hbuf
  rw [h.buf] at hbuf
  cases hbuf

end NoiseDst

namespace Relay

section

variable {conf : RelayConf} {update : UpdateChains} {N : NoiseC S} {fuel ngx_pagesize : Nat}
  {sizes : BufferSizes} {r r' : Relay S (NoiseDst S)}

/-- What the size guard of `ngx_nsoc_write` needs of a step. The client has `preread_buffer_size` to itself
for each block: a read must not reach behind it. For the upstream server the blocks of a chain are put
together: they must fit with what waits, each with the room in front of it. -/
def Admits (sizes : BufferSizes) (conf : RelayConf) : Stage → Relay S (NoiseDst S) → Prop
  | .reading, r => conf.from_upstream = true → r.readable →
      r.b.last + r.next_size conf ≤ r.b.start + sizes.preread + 2 * NGX_NSOC_LEN_FIELD_SIZE
  | .writing, r => conf.from_upstream = false → r.do_write → r.connected →
      r.dst.pending + r.links.spans (r.saved ++ r.out) ≤ sizes.block + 2 * NGX_NSOC_LEN_FIELD_SIZE
  | _, _ => True

/-- What the steps keep: the links are known, those for the client fit, and nothing was refused. -/
structure Unrefusing (sizes : BufferSizes) (conf : RelayConf) (r : Relay S (NoiseDst S)) : Prop where
  plain : r.src.is_plain = true
  client : conf.from_upstream = true → r.connected = true
  made : ∀ i ∈ r.saved ++ r.out, i < r.links.made
  span : conf.from_upstream = true → ∀ i ∈ r.saved ++ r.out,
    r.links.span i ≤ sizes.preread + 2 * NGX_NSOC_LEN_FIELD_SIZE
  admitted : r.connected → r.dst.Admitted
  whole : r.connected → r.dst.Whole
  buffer_size : r.connected → r.dst.w.nc.buffer_size = sizes.noise_buffer_size conf.from_upstream
  buffer : r.connected → r.dst.w.nc.buffer = !conf.from_upstream

theorem Unrefusing.fits (h : r.Unrefusing sizes conf) (hconnected : r.connected) (hdo_write : r.do_write)
    (hcond : r.Admits sizes conf .writing) : r.dst.Fits (r.saved ++ r.out) r.links := by
  have hsize := h.buffer_size hconnected
  have hbuffer := h.buffer hconnected
  cases hdir : conf.from_upstream with
  | false =>
    rw [hdir] at hsize hbuffer
    rw [NoiseDst.Fits, hbuffer, hsize]
    exact hcond hdir hdo_write hconnected
  | true =>
    rw [hdir] at hsize hbuffer
    rw [NoiseDst.Fits, hbuffer, hsize]
    exact h.span hdir

/-- What the invariant depends on. -/
theorem Unrefusing.transfer (h : r.Unrefusing sizes conf)
    (hsrc : r'.src.is_plain = r.src.is_plain) (hconnected : r'.connected = r.connected)
    (hchain : r'.saved ++ r'.out ⊆ r.saved ++ r.out) (hlinks : Links.Moved r.links r'.links)
    (hkept : r.connected → NoiseDst.Kept r.dst r'.dst) (hwhole : r.connected → r'.dst.Whole) :
    r'.Unrefusing sizes conf where
  plain := hsrc.trans h.plain
  client hdir := hconnected.trans (h.client hdir)
  made i hi := by
    rw [hlinks.made]
    exact h.made i (hchain hi)
  span hdir i hi := by
    rw [hlinks.span_eq]
    exact h.span hdir i (hchain hi)
  admitted hr := (hkept (hconnected ▸ hr)).admitted
  whole hr := hwhole (hconnected ▸ hr)
  buffer_size hr := by
    rw [hconnected] at hr
    exact (hkept hr).buffer_size.trans (h.buffer_size hr)
  buffer hr := by
    rw [hconnected] at hr
    exact (hkept hr).buffer.trans (h.buffer hr)

/-- The write filter, where the chain fits. -/
theorem Unrefusing.after_filter {rc : Int} {s : Relay S (NoiseDst S)} (hpagesize : ngx_pagesize ≤ 2 ^ 30)
    (h : r.Unrefusing sizes conf) (hconnected : r.connected) (hdo_write : r.do_write)
    (hcond : r.Admits sizes conf .writing)
    (hfiltered : Filtered conf (sizes.destination update N fuel ngx_pagesize conf.from_upstream) r (rc, s)) :
    s.dst.Admitted ∧ s.connected = r.connected ∧
      (rc ≠ NGX_ERROR → ∀ P, (s.update_chains P).rewind.Unrefusing sizes conf) := by
  have hlimit : (r.dst.w.nc.buffer_size + NOISE_PROTOCOL_MAC_DATA_SIZE + 2 * NGX_NSOC_LEN_FIELD_SIZE : Nat) ≤
      chain_limit ngx_pagesize := by
    have hle := sizes.noise_buffer_size_le conf.from_upstream
    rw [← h.buffer_size hconnected] at hle
    simp only [chain_limit, NOISE_PROTOCOL_MAC_DATA_SIZE, NGX_NSOC_LEN_FIELD_SIZE,
      NOISE_PROTOCOL_PAYLOAD_SIZE] at hle ⊢
    omega
  have hself : NoiseDst.Kept r.dst r.dst := ⟨h.admitted hconnected, rfl, rfl⟩
  have hrewind : ∀ t : Relay S (NoiseDst S), t.out = [] → t.src = r.src → t.connected = r.connected →
      t.saved ⊆ r.saved ++ r.out → Links.Moved r.links t.links → NoiseDst.Kept r.dst t.dst → t.dst.Whole →
      t.rewind.Unrefusing sizes conf := by
    intro t hout hsrc hsame hsaved hmoved hkept hwhole
    obtain ⟨b, hb, -⟩ := t.rewind_eq
    rw [hb]
    refine h.transfer (by rw [hsrc]) hsame ?_ hmoved (fun _ => hkept) fun _ => hwhole
    rw [hout, List.append_nil]
    exact hsaved
  have hunrefused : ∀ t, r.dst.send_chain N fuel (chain_limit ngx_pagesize) (r.saved ++ r.out) r.links
      r.heap = ok t → NoiseDst.Unrefused (r.saved ++ r.out) r.links r.dst (t.1, t.2.1, t.2.2.2) := fun t ht =>
    NoiseDst.unrefused_send_chain (h.admitted hconnected) (h.whole hconnected)
      (h.fits hconnected hdo_write hcond) hlimit ht
  cases hfiltered with
  | refused allocs => exact ⟨hself.admitted, rfl, fun hrc => absurd rfl hrc⟩
  | useless allocs => exact ⟨hself.admitted, rfl, fun hrc => absurd rfl hrc⟩
  | empty allocs hsize hbuffered =>
    exact ⟨hself.admitted, rfl, fun _ P => hrewind _ rfl rfl rfl (List.nil_subset _) (.refl _) hself
      (h.whole hconnected)⟩
  | failed allocs hsend => exact ⟨(hunrefused _ hsend).kept.admitted, rfl, fun hrc => absurd rfl hrc⟩
  | sent allocs rc write_buffered hsend =>
    have hsent := hunrefused _ hsend
    obtain ⟨hrest, hwhole⟩ := hsent.rest _ rfl
    exact ⟨hsent.kept.admitted, rfl, fun _ P => hrewind _ rfl rfl rfl hrest hsent.moved hsent.kept
      (hwhole (h.whole hconnected))⟩

theorem span_add_link_of_lt {n i : Nat} (hi : i < r.links.made) :
    (r.add_link n).links.span i = r.links.span i := by
  rw [Links.span, buf_add_link_of_lt hi]
  rfl

theorem span_add_link_self_le (r : Relay S (NoiseDst S)) (n : Nat) :
    (r.add_link n).links.span r.links.made ≤ r.b.last + n - r.b.start := by
  rw [Links.span, buf_add_link_self]
  split
  · exact Nat.zero_le _
  · exact Nat.le_refl _

/-- A read, whose block the condition bounds where it is for the client. -/
theorem Unrefusing.after_read
    {flow : ControlFlow (Relay S (NoiseDst S)) (Option ProcessExit × Relay S (NoiseDst S))}
    (h : r.Unrefusing sizes conf) (hcond : r.Admits sizes conf .reading)
    (hflow : ReadHalf conf N fuel r flow) :
    flow.Holds (·.Unrefusing sizes conf) fun value => value.2.Unrefusing sizes conf := by
  have hsame : ∀ r' : Relay S (NoiseDst S), r'.src.is_plain = r.src.is_plain →
      r'.connected = r.connected → r'.saved = r.saved → r'.out = r.out → r'.links = r.links →
      r'.dst = r.dst → r'.Unrefusing sizes conf := by
    intro r' hsrc hconnected hsaved hout hlinks hdst
    refine h.transfer hsrc hconnected ?_ ?_ (fun hr => ?_) fun hr => ?_
    · rw [hsaved, hout]
      exact List.Subset.refl _
    · rw [hlinks]
      exact .refl _
    · rw [hdst]
      exact ⟨h.admitted hr, rfl, rfl⟩
    · rw [hdst]
      exact h.whole hr
  cases hflow with
  | idle => exact h
  | delayed =>
    exact hsame _ (Source.is_plain_setRead _ _) rfl rfl rfl rfl rfl
  | left hreadable hrecv exit read responses allocs =>
    obtain ⟨hplain, -⟩ := recv_of_plain h.plain hrecv
    refine hsame _ ?_ rfl rfl rfl rfl rfl
    rw [after_recv, Source.is_plain_setRead, hplain, h.plain]
  | link hreadable hrecv hn read responses allocs =>
    obtain ⟨hplain, hsize⟩ := recv_of_plain h.plain hrecv
    refine ⟨?_, h.client, ?_, ?_, h.admitted, h.whole, h.buffer_size, h.buffer⟩
    · rw [add_link, after_recv, Source.is_plain_setRead]
      exact hplain
    · intro i hi
      show i < r.links.made + 1
      obtain hi | rfl := mem_add_link.mp hi
      · exact Nat.lt_succ_of_lt (h.made i hi)
      · exact Nat.lt_succ_self _
    · intro hdir i hi
      obtain hi | rfl := mem_add_link.mp hi
      · exact Nat.le_trans (Nat.le_of_eq (span_add_link_of_lt (h.made i hi))) (h.span hdir i hi)
      · have hroom := hcond hdir hreadable
        refine Nat.le_trans (span_add_link_self_le _ _) ?_
        simp only [after_recv, hsize]
        omega

/-- The upstream server is connected, and gets what was read in the preread phase. -/
theorem Unrefusing.after_connect {dst : NoiseDst S} {dst_read : Event} (h : r.Unrefusing sizes conf)
    (hconnected : r.connected = false)
    (hdst : (sizes.destination update N fuel ngx_pagesize conf.from_upstream).fresh dst) :
    (r.connect conf dst dst_read).Unrefusing sizes conf := by
  obtain ⟨hfresh, hsize, hbuffer⟩ := hdst
  have hdir : ¬ conf.from_upstream = true := by
    intro hdir
    rw [h.client hdir] at hconnected
    cases hconnected
  obtain ⟨read, heq, -⟩ | ⟨buffer, read, record, -, -, heq, -⟩ := connect_cases conf dst dst_read r
  · rw [heq]
    exact ⟨h.plain, fun _ => rfl, h.made, h.span, fun _ => hfresh.admitted, fun _ => hfresh.whole,
      fun _ => hsize, fun _ => hbuffer⟩
  · rw [heq]
    refine ⟨h.plain, fun _ => rfl, fun i hi => ?_, fun hto => absurd hto hdir, fun _ => hfresh.admitted,
      fun _ => hfresh.whole, fun _ => hsize, fun _ => hbuffer⟩
    show i < r.links.made + 1
    simp only [List.mem_append, List.mem_cons] at hi
    obtain hi | rfl | hi := hi
    · exact Nat.lt_succ_of_lt (h.made i (List.mem_append_left _ hi))
    · exact Nat.lt_succ_self _
    · exact Nat.lt_succ_of_lt (h.made i (List.mem_append_right _ hi))

theorem Unrefusing.after_elsewhere (h : r.Unrefusing sizes conf)
    (hr : r.Elsewhere (sizes.destination update N fuel ngx_pagesize conf.from_upstream) r') :
    r'.Unrefusing sizes conf := by
  obtain ⟨hsrc, hdst, hothers⟩ := hr
  rw [hothers]
  refine h.transfer hsrc.is_plain_eq rfl (List.Subset.refl _) (.refl _)
    (fun hr => ⟨?_, hdst.buffer_size, hdst.buffer⟩) fun hr => ?_
  · rw [NoiseDst.Admitted, hdst.calls]
    exact h.admitted hr
  · intro buf hbuffer hbuf
    dsimp only at hbuffer hbuf ⊢
    rw [hdst.buffer] at hbuffer
    rw [hdst.buf] at hbuf
    rw [hdst.buffer_size]
    exact h.whole hr buf hbuffer hbuf

theorem Unrefusing.step {x y : Stage × Relay S (NoiseDst S)} (hpagesize : ngx_pagesize ≤ 2 ^ 30)
    (hx : x.1 ≠ .ended → x.2.Unrefusing sizes conf) (hcond : x.2.Admits sizes conf x.1)
    (hstep : Step conf (sizes.destination update N fuel ngx_pagesize conf.from_upstream) N fuel x y) :
    (y.2.connected → y.2.dst.Admitted) ∧ (y.1 ≠ .ended → y.2.Unrefusing sizes conf) := by
  have hall : ∀ {stage : Stage} {t : Relay S (NoiseDst S)}, t.Unrefusing sizes conf →
      (t.connected → t.dst.Admitted) ∧ (stage ≠ .ended → t.Unrefusing sizes conf) :=
    fun ht => ⟨ht.admitted, fun _ => ht⟩
  cases hstep with
  | enter r do_write elapsed =>
    have h := hx (by simp)
    exact hall (h.transfer rfl rfl (List.Subset.refl _) (.refl _) (fun hr => ⟨h.admitted hr, rfl, rfl⟩) h.whole)
  | write r r' hwrite =>
    have h := hx (by simp)
    cases write_half hwrite with
    | skipped => exact hall h
    | written hconnected hdo_write hfiltered hrc =>
      exact hall ((h.after_filter hpagesize hconnected hdo_write hcond hfiltered).2.2 hrc _)
  | write_end r r' exit hwrite =>
    have h := hx (by simp)
    cases write_half hwrite with
    | ended hconnected hdo_write exit hfiltered =>
      refine ⟨fun _ => ?_, fun hend => absurd rfl hend⟩
      exact (h.after_filter hpagesize hconnected hdo_write hcond hfiltered).1
  | read r r' hread => exact hall ((hx (by simp)).after_read hcond (read_half hread))
  | leave r r' exit hread =>
    have hleft : r'.Unrefusing sizes conf := (hx (by simp)).after_read hcond (read_half hread)
    cases exit with
    | some exit => exact ⟨hleft.admitted, fun hend => absurd rfl hend⟩
    | none =>
      obtain ⟨events, write_timer, hleave⟩ :=
        leave_eq conf (sizes.destination update N fuel ngx_pagesize conf.from_upstream) r'
      apply hall
      show Unrefusing sizes conf (r'.leave conf _).2
      rw [hleave]
      exact hleft.transfer rfl rfl (List.Subset.refl _) (.refl _) (fun hr => ⟨hleft.admitted hr, rfl, rfl⟩)
        hleft.whole
  | connect r dst dst_read hconnected hdst =>
    exact hall ((hx (by simp)).after_connect hconnected hdst)
  | elsewhere r r' hr =>
    have h := hx (by simp)
    exact hall (h.after_elsewhere hr)

/-- In a run whose reads for the client stay within `preread_buffer_size`, and whose chains for the upstream
server fit into `block_buffer_size`, no block is refused because of its size. -/
theorem admitted_of_run {stage : Stage} {r₀ : Relay S (NoiseDst S)} (hpagesize : ngx_pagesize ≤ 2 ^ 30)
    (hstart : r₀.Initial conf (sizes.destination update N fuel ngx_pagesize conf.from_upstream) sizes.block)
    (hplain : r₀.src.is_plain = true) (hclient : conf.from_upstream = true → r₀.connected = true)
    (hrun : Run conf (sizes.destination update N fuel ngx_pagesize conf.from_upstream) N fuel
      (fun stage r => r.Admits sizes conf stage) (.idle, r₀) (stage, r)) (hconnected : r.connected) :
    ∀ call ∈ r.dst.calls, call.data_size ≤ call.buffer_size := by
  have hnone : r₀.saved ++ r₀.out = [] := by rw [hstart.saved, hstart.out, List.append_nil]
  have hfirst : r₀.Unrefusing sizes conf := by
    refine ⟨hplain, hclient, ?_, ?_, fun hr => (hstart.dst hr).1.admitted, fun hr => (hstart.dst hr).1.whole,
      fun hr => (hstart.dst hr).2.1, fun hr => (hstart.dst hr).2.2⟩
    · rw [hnone]
      nofun
    · rw [hnone]
      nofun
  have hlast := Run.invariant
    (fun stage r => (r.connected → r.dst.Admitted) ∧ (stage ≠ .ended → r.Unrefusing sizes conf))
    (fun y z hy hcond hstep => Unrefusing.step hpagesize hy.2 hcond hstep)
    ⟨hfirst.admitted, fun _ => hfirst⟩ hrun
  exact hlast.1 hconnected

end

/-- A direction to the client, with a segment of two bytes to read. -/
def to_client (block : Nat) (dst : NoiseDst Pattern) : Relay Pattern (NoiseDst Pattern) where
  b := ⟨100, 104, 104, 100 + block + 20⟩
  src := .plain ⟨[.data 7 [8]], false⟩ { Event.fresh with ready := true } false
  dst := dst
  connected := true
  dst_read := .fresh
  dst_error := false
  write_buffered := false
  ctx := false
  out := []
  busy := []
  saved := []
  links := ⟨fun _ => ⟨false, 0, 0, 0, 0, false, false, false⟩, 0⟩
  heap := ⟨⟨fun _ => 0, []⟩, ⟨fun _ => 0, []⟩⟩
  received := 0
  other_received := 0
  responses := 0
  elapsed := 0
  do_write := false
  write_timer := false
  events := []
  allocs := []
  entered := 0
  record := fun _ => []
  payload := []

/-- A client behind its handshake. -/
def client_dst (preread : Nat) : NoiseDst Pattern where
  w := .create ⟨some ⟨0, 1⟩, none⟩ preread .server false ⟨.responder, 0⟩ server_prologue
    ⟨fun _ => 0, []⟩ (.quiet [] false)
  buf := none
  flush := false
  buffered := false
  calls := []

def to_client_conf : RelayConf := ⟨true, false, 0, 0, false, false, false, none⟩

/-- The sizes `preread_buffer_size 2` and `block_buffer_size 2`. -/
def equal_sizes : BufferSizes := ⟨2, 2, by decide, by decide⟩

def smaller_preread : BufferSizes := ⟨1, 2, by decide, by decide⟩

/-- The direction behind the start of its first call. -/
def entered_client (preread : Nat) : Relay Pattern (NoiseDst Pattern) :=
  (to_client 2 (client_dst preread)).enter true 0

/-- With `preread_buffer_size` as large as `block_buffer_size` the segment passes the guard. -/
theorem admitted_of_two_bytes : ∃ r : Relay Pattern (NoiseDst Pattern),
    r.dst.calls.length = 1 ∧ ∀ call ∈ r.dst.calls, call.data_size ≤ call.buffer_size := by
  have hpass : ∃ r, (entered_client 2).process_read to_client_conf pattern_xx 100 = ok (.cont r) ∧
      ∃ r', r.process_write to_client_conf (equal_sizes.destination .in_order pattern_xx 100 4096 true) =
        ok (none, r') ∧ r'.dst.calls.length = 1 ∧ r'.connected :=
    ⟨_, rfl, _, rfl, rfl, rfl⟩
  obtain ⟨r, hread, r', hwrite, hcalls, hconnected⟩ := hpass
  have hinitial : (to_client 2 (client_dst 2)).Initial to_client_conf
      (equal_sizes.destination .in_order pattern_xx 100 4096 true) 2 :=
    ⟨by decide, rfl, by decide, trivial, fun _ => ⟨⟨rfl, rfl, rfl, rfl⟩, rfl, rfl⟩, rfl, rfl, rfl, rfl, rfl⟩
  have hrun : Run to_client_conf (equal_sizes.destination .in_order pattern_xx 100 4096 true) pattern_xx 100
      (fun stage r => r.Admits equal_sizes to_client_conf stage)
      (.idle, to_client 2 (client_dst 2)) (.reading, r') := by
    apply Run.tail _ (by nofun) (.write r r' hwrite)
    apply Run.tail _ (fun _ _ => by decide) (.read (entered_client 2) r hread)
    apply Run.tail _ (by nofun) (.write (entered_client 2) (entered_client 2) rfl)
    exact Run.of_step trivial (.enter (to_client 2 (client_dst 2)) true 0)
  exact ⟨r', hcalls, admitted_of_run (by decide) hinitial rfl (fun _ => rfl) hrun hconnected⟩

/-- With `preread_buffer_size` smaller than `block_buffer_size` a segment that was read is refused. -/
theorem refused_of_two_bytes : ∃ (sizes : BufferSizes) (r r' : Relay Pattern (NoiseDst Pattern)),
    r.Initial to_client_conf (sizes.destination .in_order pattern_xx 100 4096 true) sizes.block ∧
      r.src.is_plain = true ∧ r.connected ∧
      Run to_client_conf (sizes.destination .in_order pattern_xx 100 4096 true) pattern_xx 100 (fun _ _ => True)
        (.idle, r) (.ended, r') ∧
      ∃ call ∈ r'.dst.calls, call.buffer_size < call.data_size := by
  have hpass : ∃ r, (entered_client 1).process_read to_client_conf pattern_xx 100 = ok (.cont r) ∧
      ∃ exit r', r.process_write to_client_conf (smaller_preread.destination .in_order pattern_xx 100 4096 true) =
        ok (some exit, r') ∧ ∃ payload, r'.dst.calls = [⟨2, 1, payload⟩] :=
    ⟨_, rfl, _, _, rfl, _, rfl⟩
  obtain ⟨r, hread, exit, r', hwrite, payload, hcalls⟩ := hpass
  have hinitial : (to_client 2 (client_dst 1)).Initial to_client_conf
      (smaller_preread.destination .in_order pattern_xx 100 4096 true) 2 :=
    ⟨by decide, rfl, by decide, trivial, fun _ => ⟨⟨rfl, rfl, rfl, rfl⟩, rfl, rfl⟩, rfl, rfl, rfl, rfl, rfl⟩
  have hrun : Run to_client_conf (smaller_preread.destination .in_order pattern_xx 100 4096 true) pattern_xx 100
      (fun _ _ => True) (.idle, to_client 2 (client_dst 1)) (.ended, r') := by
    apply Run.tail _ trivial (.write_end r r' exit hwrite)
    apply Run.tail _ trivial (.read (entered_client 1) r hread)
    apply Run.tail _ trivial (.write (entered_client 1) (entered_client 1) rfl)
    exact Run.of_step trivial (.enter (to_client 2 (client_dst 1)) true 0)
  refine ⟨smaller_preread, _, r', hinitial, rfl, rfl, hrun, ⟨2, 1, payload⟩, ?_, Nat.lt_succ_self 1⟩
  rw [hcalls]
  exact List.mem_singleton_self _

/-- A direction to the upstream server, which is not connected yet, with two segments of one byte. -/
def to_upstream : Relay Pattern (NoiseDst Pattern) :=
  { to_client 2 (client_dst 2) with
    src := .plain ⟨[.data 7 [], .data 8 []], false⟩ { Event.fresh with ready := true } false
    connected := false }

def to_upstream_conf : RelayConf := { to_client_conf with from_upstream := false }

/-- The upstream server behind its handshake. -/
def upstream_dst : NoiseDst Pattern where
  w := .create ⟨some ⟨0, 1⟩, none⟩ 2 .server true ⟨.responder, 0⟩ server_prologue
    ⟨fun _ => 0, []⟩ (.quiet [] false)
  buf := none
  flush := false
  buffered := false
  calls := []

/-- With equal sizes two segments that have waited for the connection are refused, and the session ends. -/
theorem refused_of_two_segments : ∃ r s : Relay Pattern (NoiseDst Pattern),
    to_upstream.process to_upstream_conf (equal_sizes.destination .in_order pattern_xx 100 4096 false) pattern_xx 100
      false false 0 = ok (.returned, r) ∧
    (r.connect to_upstream_conf upstream_dst .fresh).process to_upstream_conf
      (equal_sizes.destination .in_order pattern_xx 100 4096 false) pattern_xx 100 false true 0 =
      ok (.finalized NGX_NSOC_OK, s) ∧
    ∃ payload, s.dst.calls = [⟨7, 2, payload⟩] :=
  ⟨_, _, rfl, rfl, _, rfl⟩

end Relay

end ngx_nsoc
