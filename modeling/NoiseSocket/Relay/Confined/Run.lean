import NoiseSocket.Relay.Confined

open Exec Exec.Result

namespace ngx_nsoc

variable {S D : Type}

namespace Relay

/-- A pass comes to a call of `recv`. -/
def Receives (conf : RelayConf) (r : Relay S D) : Prop :=
  r.readable ∧ ¬ (conf.limit_rate ≠ 0 ∧ r.limit conf ≤ 0)

/-- The call of `ngx_nsoc_recv` that reads the source. -/
def recv_call (conf : RelayConf) (N : NoiseC S) (fuel : Nat) (r : Relay S D) (w : Endpoint S) :
    Result (Int × Endpoint S) :=
  { w with mem := r.heap.relay }.recv N fuel r.read_addr (r.read_size conf)

/-- The condition of a step: a frame that a call begins is one that the buffer of the relay has room for, and
so is the frame of each block that is sealed in place, or that is refused because of its size. -/
structure Fits (sizes : BufferSizes) (conf : RelayConf) (in_place : Bool) (stage : Stage) (r : Relay S D) :
    Prop where
  frame : stage = .reading → r.Receives conf → ∀ w len, r.src = .noise w → w.begun_len = some len →
    len ≤ sizes.block + NOISE_PROTOCOL_MAC_DATA_SIZE + NGX_NSOC_LEN_FIELD_SIZE
  block : stage = .writing → in_place → r.connected → r.do_write → ∀ i ∈ r.saved ++ r.out,
    r.links.Sealable sizes i

/-- A step stores in the buffer of the relay only, and a frame that this has no room for is refused before
any of its body is read. -/
structure Spares (conf : RelayConf) (N : NoiseC S) (fuel : Nat) (x y : Stage × Relay S D) : Prop where
  stores : x.2.heap.relay.WritesWithin y.2.heap.relay (Set.Ico x.2.b.start x.2.b.stop)
  refuses : x.1 = .reading → x.2.Receives conf → ∀ w len r, x.2.src = .noise w → w.frame_len = some len →
    x.2.b.stop < x.2.b.start + NGX_NSOC_LEN_FIELD_SIZE + len →
    x.2.recv_call conf N fuel w = ok r → w.Refused r

/-- The room that a read from a plain source leaves behind its block. -/
def reserve (r : Relay S D) : Nat := if r.src.noise_recv_action then 0 else NOISE_PROTOCOL_MAC_DATA_SIZE

theorem reserve_le (r : Relay S D) : r.reserve ≤ 16 := by
  unfold reserve
  split_ifs
  · exact Nat.zero_le _
  · exact Nat.le_refl _

/-- What the steps keep. Within a call the position of a plain source leaves room for a tag, if the session
has no noise connection. -/
structure Guarded (sizes : BufferSizes) (in_place : Bool) (kept : D → Prop) (stage : Stage) (r : Relay S D) :
    Prop where
  start : r.b.start ≠ 0
  stop : r.b.stop = r.b.start + sizes.block + 20
  address : r.b.stop < 2 ^ 63
  plain : stage ≠ .idle → r.src.is_plain = true →
    r.b.start ≤ r.b.last ∧ r.b.last + r.reserve ≤ r.b.stop
  frame : ∀ w, r.src = .noise w → w.Confined r.b.start r.b.stop
  dst : r.connected → kept r.dst
  based : in_place → r.links.Based r.b.start (r.saved ++ r.out)

section

variable {sizes : BufferSizes} {conf : RelayConf} {P : Destination D} {N : NoiseC S} {fuel : Nat}
  {in_place : Bool} {kept : D → Prop} {stage stage' : Stage} {r r' : Relay S D}

theorem read_size_le_room (conf : RelayConf) (r : Relay S D) : r.read_size conf ≤ r.room := by
  unfold read_size
  split_ifs
  · omega
  · exact Nat.le_refl _

/-- A step that changes the positions of the buffer, the source, the destination and the links. -/
theorem Guarded.transfer (h : r.Guarded sizes in_place kept stage) (hstart : r'.b.start = r.b.start)
    (hstop : r'.b.stop = r.b.stop)
    (hplain : stage' ≠ .idle → r'.src.is_plain = true →
      r'.b.start ≤ r'.b.last ∧ r'.b.last + r'.reserve ≤ r'.b.stop)
    (hframe : ∀ w, r'.src = .noise w → w.Confined r.b.start r.b.stop) (hdst : r'.connected → kept r'.dst)
    (hbased : in_place → r'.links.Based r.b.start (r'.saved ++ r'.out)) :
    r'.Guarded sizes in_place kept stage' := by
  refine ⟨?_, ?_, ?_, hplain, ?_, hdst, ?_⟩
  · rw [hstart]
    exact h.start
  · rw [hstart, hstop]
    exact h.stop
  · rw [hstop]
    exact h.address
  · rw [hstart, hstop]
    exact hframe
  · rw [hstart]
    exact hbased

theorem Guarded.reset (h : r.Guarded sizes in_place kept stage) :
    r.reset.Guarded sizes in_place kept stage' := by
  refine h.transfer rfl rfl (fun _ _ => ?_) h.frame h.dst h.based
  have hstop := h.stop
  have hreserve := r.reset.reserve_le
  dsimp only [Relay.reset, NGX_NSOC_LEN_FIELD_SIZE] at hreserve ⊢
  omega

/-- A call of `recv` stores in the buffer of the relay. -/
theorem Guarded.recv (hN : N.Tagged) {got : Int × Memory × Source S}
    (h : r.Guarded sizes in_place kept .reading) (hfits : r.Fits sizes conf in_place .reading)
    (hreceives : r.Receives conf)
    (hrecv : r.src.recv N fuel r.heap.relay r.read_addr (r.read_size conf) = ok got) :
    r.heap.relay.WritesWithin got.2.1 (Set.Ico r.b.start r.b.stop) ∧
      (∀ w, got.2.2 = .noise w → w.Confined r.b.start r.b.stop) ∧
      (got.2.2.is_plain = true → got.2.2.noise_recv_action = r.src.noise_recv_action ∧
        r.b.start ≤ r.b.last ∧ r.b.last + (taken got.1).toNat + r.reserve ≤ r.b.stop) := by
  cases hsrc : r.src with
  | plain rx read noise_connection =>
    obtain ⟨hlow, hhigh⟩ := h.plain (by simp) (by rw [hsrc]; rfl)
    have haddress := h.address
    have hroom : r.room = r.b.stop - r.b.last - r.reserve := by
      unfold reserve room at *
      split_ifs at *
      all_goals
        simp only [NOISE_PROTOCOL_MAC_DATA_SIZE, size_t] at *
        omega
    have hsize := read_size_le_room conf r
    have haddr : r.b.start ≤ r.read_addr ∧ r.read_addr ≤ r.b.last := by
      rw [read_addr]
      split_ifs
      · exact ⟨Nat.le_refl _, hlow⟩
      · exact ⟨hlow, Nat.le_refl _⟩
    obtain ⟨answer, rx', hanswer⟩ : ∃ answer rx', rx.recv (r.read_size conf) = (answer, rx') := ⟨_, _, rfl⟩
    obtain ⟨hlen, -⟩ := length_answerBytes_of_recv hanswer
    have htaken : (taken (answerCode answer)).toNat = (answerBytes answer).length := by
      cases answer <;> simp [taken, answerCode, answerBytes]
    rw [hsrc, Source.recv, hanswer] at hrecv
    have hstored : r.b.last + (answerBytes answer).length + r.reserve ≤ r.b.stop := by omega
    have hinside : r.read_addr + (answerBytes answer).length ≤ r.b.stop := by omega
    cases hrecv
    refine ⟨Memory.within_write _ _ haddr.1 hinside, ?_, fun _ => ⟨rfl, hlow, ?_⟩⟩
    · intro w hw
      cases hw
    · dsimp only
      rw [htaken]
      exact hstored
  | noise w =>
    have hconfined := h.frame w hsrc
    have haddr : r.read_addr = r.b.start := by
      rw [read_addr, hsrc]
      rfl
    have hnext : ∀ len, w.begun_len = some len → r.b.start + 2 + len ≤ r.b.stop := by
      intro len hlen
      have hle := hfits.frame rfl hreceives w len hsrc hlen
      have hstop := h.stop
      dsimp only [NOISE_PROTOCOL_MAC_DATA_SIZE, NGX_NSOC_LEN_FIELD_SIZE] at hle
      omega
    rw [hsrc, haddr] at hrecv
    obtain ⟨s, hcall, hrest⟩ := bind_eq_ok_iff.mp hrecv
    cases hrest
    have hmem : ({ w with mem := r.heap.relay } : Endpoint S).Confined r.b.start r.b.stop :=
      hconfined.of_nc rfl rfl
    obtain ⟨hdone, hwrites⟩ := Endpoint.confined_recv hN hmem (Nat.le_add_right _ _) hnext hcall
    refine ⟨hwrites, ?_, ?_⟩
    · rintro v ⟨⟩
      exact hdone
    · intro hnot
      cases hnot

/-- What a reading half stores, and what it leaves. -/
theorem Guarded.after_read (hN : N.Tagged)
    {flow : ControlFlow (Relay S D) (Option ProcessExit × Relay S D)}
    (h : r.Guarded sizes in_place kept .reading)
    (hfits : r.Fits sizes conf in_place .reading) (hread : r.process_read conf N fuel = ok flow) :
    flow.Holds
      (fun r' => r'.Guarded sizes in_place kept .writing ∧
        r.heap.relay.WritesWithin r'.heap.relay (Set.Ico r.b.start r.b.stop))
      fun value => value.2.Guarded sizes in_place kept .idle ∧
        r.heap.relay.WritesWithin value.2.heap.relay (Set.Ico r.b.start r.b.stop) := by
  have hself : r.Guarded sizes in_place kept .idle :=
    h.transfer rfl rfl (fun hnot => absurd rfl hnot) h.frame h.dst h.based
  have hdelay : r.delay.Guarded sizes in_place kept .idle := by
    refine h.transfer rfl rfl (fun hnot => absurd rfl hnot) (fun w hw => ?_) h.dst h.based
    cases hsrc : r.src with
    | plain rx read noise_connection =>
      rw [delay, setSrcRead, hsrc] at hw
      cases hw
    | noise v =>
      rw [delay, setSrcRead, hsrc] at hw
      cases hw
      exact (h.frame v hsrc).of_nc rfl rfl
  by_cases hreadable : r.readable
  · by_cases hlimit : conf.limit_rate ≠ 0 ∧ r.limit conf ≤ 0
    · rw [process_read, if_neg (not_not.mpr hreadable), if_pos hlimit] at hread
      cases hread
      exact ⟨hdelay, .refl _ _⟩
    · have hpassed : ∀ {got : Int × Memory × Source S} {read : Event} {responses : Nat} {allocs : List Bool},
          r.src.recv N fuel r.heap.relay r.read_addr (r.read_size conf) = ok got →
          (r.after_recv got read responses allocs).Guarded sizes in_place kept .idle ∧
          r.heap.relay.WritesWithin got.2.1 (Set.Ico r.b.start r.b.stop) ∧
          ((r.after_recv got read responses allocs).add_link (taken got.1).toNat).Guarded sizes in_place
            kept .writing := by
        intro got read responses allocs hrecv
        obtain ⟨hwrites, hconfined, hplain⟩ := h.recv hN hfits ⟨hreadable, hlimit⟩ hrecv
        have hframe : ∀ w, got.2.2.setRead read = .noise w → w.Confined r.b.start r.b.stop := by
          intro w hw
          cases hsrc : got.2.2 with
          | plain rx ev noise_connection =>
            rw [hsrc] at hw
            cases hw
          | noise v =>
            rw [hsrc] at hw
            cases hw
            exact (hconfined v hsrc).of_nc rfl rfl
        refine ⟨h.transfer rfl rfl (fun hnot => absurd rfl hnot) hframe h.dst h.based, hwrites,
          h.transfer rfl rfl (fun _ hkind => ?_) hframe h.dst fun hin_place i hi hplace => ?_⟩
        · obtain ⟨hflag, hlow, hhigh⟩ := hplain (by simpa [Relay.after_recv, add_link] using hkind)
          have hreserve : ((r.after_recv got read responses allocs).add_link (taken got.1).toNat).reserve =
              r.reserve := by
            simp only [reserve, add_link, Relay.after_recv, Source.noise_recv_action_setRead, hflag]
          rw [hreserve]
          exact ⟨Nat.le_trans hlow (Nat.le_add_right _ _), hhigh⟩
        · -- the new link begins where the buffer begins
          by_cases hnew : i = r.links.made
          · rw [hnew]
            exact congrArg ChainBuf.start (buf_add_link_self (r.after_recv got read responses allocs) _)
          · have hold : ((r.after_recv got read responses allocs).add_link (taken got.1).toNat).links.buf i =
                r.links.buf i := Links.buf_set_of_ne _ _ hnew
            rw [hold] at hplace ⊢
            exact h.based hin_place i ((mem_add_link.mp hi).resolve_right hnew) hplace
      cases read_half hread with
      | idle => exact ⟨hself, .refl _ _⟩
      | delayed => exact ⟨hdelay, .refl _ _⟩
      | left hreadable hrecv exit read responses allocs =>
        obtain ⟨hleft, hwrites, -⟩ := hpassed hrecv
        exact ⟨hleft, hwrites⟩
      | link hreadable hrecv hn read responses allocs =>
        obtain ⟨-, hwrites, hlink⟩ := hpassed hrecv
        exact ⟨hlink, hwrites⟩
  · rw [process_read, if_pos hreadable] at hread
    cases hread
    exact ⟨hself, .refl _ _⟩

/-- What the write filter stores, and what the pass leaves where it goes on. -/
theorem Guarded.after_filter (hP : Confines P sizes in_place kept) {rc : Int} {s : Relay S D}
    (h : r.Guarded sizes in_place kept .writing) (hconnected : r.connected) (hdo_write : r.do_write)
    (hfits : r.Fits sizes conf in_place .writing) (hfiltered : Filtered conf P r (rc, s)) :
    r.heap.relay.WritesWithin s.heap.relay (Set.Ico r.b.start r.b.stop) ∧
      (rc ≠ NGX_ERROR → (s.update_chains P).rewind.Guarded sizes in_place kept .reading) := by
  have hsent : ∀ {links : Links} {heap : Heap} {dst : D} {rest : Option (List Nat)},
      P.send_chain (r.saved ++ r.out) r.links r.heap r.dst = ok (rest, links, heap, dst) →
      kept dst ∧ r.heap.relay.WritesWithin heap.relay (Set.Ico r.b.start r.b.stop) ∧
        (in_place → ∀ left, rest = some left → links.Based r.b.start left) := by
    intro links heap dst rest hsend
    rw [h.stop]
    exact hP.sent (h.dst hconnected)
      (fun hin_place => ⟨h.based hin_place, hfits.block rfl hin_place hconnected hdo_write⟩) hsend
  have hrewind : ∀ t : Relay S D, t.Guarded sizes in_place kept .reading →
      t.rewind.Guarded sizes in_place kept .reading := by
    intro t ht
    unfold rewind
    split_ifs
    · exact ht.reset
    · exact ht
  cases hfiltered with
  | refused allocs => exact ⟨.refl _ _, fun hrc => absurd rfl hrc⟩
  | useless allocs => exact ⟨.refl _ _, fun hrc => absurd rfl hrc⟩
  | empty allocs hsize hbuffered =>
    refine ⟨.refl _ _, fun _ => hrewind _ (h.transfer rfl rfl (fun _ => h.plain (by simp)) h.frame h.dst ?_)⟩
    rintro - i ⟨⟩
  | failed allocs hsend => exact ⟨(hsent hsend).2.1, fun hrc => absurd rfl hrc⟩
  | sent allocs rc write_buffered hsend =>
    obtain ⟨hkept, hwrites, hbased⟩ := hsent hsend
    refine ⟨hwrites, fun _ => hrewind _ (h.transfer rfl rfl (fun _ => h.plain (by simp)) h.frame
      (fun _ => hkept) ?_)⟩
    intro hin_place
    have hleft := hbased hin_place _ rfl
    simpa [update_chains] using hleft

theorem Guarded.after_connect (hP : Confines P sizes in_place kept) (conf : RelayConf) {dst : D}
    (dst_read : Event)
    (h : r.Guarded sizes in_place kept .idle) (hdst : P.fresh dst) :
    (r.connect conf dst dst_read).Guarded sizes in_place kept .idle ∧
      (r.connect conf dst dst_read).heap = r.heap := by
  obtain ⟨read, heq, -⟩ | ⟨buffer, read, record, -, -, heq, -⟩ := connect_cases conf dst dst_read r
  · rw [heq]
    exact ⟨h.transfer rfl rfl h.plain h.frame (fun _ => hP.fresh hdst) h.based, rfl⟩
  · rw [heq]
    refine ⟨h.transfer rfl rfl h.plain h.frame (fun _ => hP.fresh hdst) fun hin_place i hi hplace => ?_, rfl⟩
    -- the link of the preread phase lies elsewhere
    by_cases hnew : i = r.links.made
    · rw [hnew] at hplace
      simp at hplace
    · have hold : i ∈ r.saved ++ r.out := by
        simpa [hnew] using hi
      dsimp only at hplace ⊢
      rw [show (r.links.make _).2.buf i = r.links.buf i from Links.buf_set_of_ne _ _ hnew] at hplace ⊢
      exact h.based hin_place i hold hplace

theorem Guarded.after_elsewhere (hP : Confines P sizes in_place kept)
    (h : r.Guarded sizes in_place kept .idle) (hr : r.Elsewhere P r') :
    r'.Guarded sizes in_place kept .idle ∧ r'.heap = r.heap := by
  obtain ⟨hsrc, hdst, hothers⟩ := hr
  rw [hothers]
  refine ⟨h.transfer rfl rfl (fun hnot => absurd rfl hnot) (fun w hw => ?_) (fun hr => ?_) h.based, rfl⟩
  · generalize hold : r.src = src at hsrc
    generalize hnew : r'.src = src' at hsrc hw
    cases hsrc with
    | plain rx rx' read read' noise_connection noise_connection' => cases hw
    | noise v v' hrecv_buf hnoise_msg =>
      cases hw
      exact (h.frame v hold).of_nc hrecv_buf hnoise_msg
  · exact hP.elsewhere hdst (h.dst hr)

/-- A frame without room that the condition lets through is one that the call does not begin. -/
theorem Guarded.refuses (h : r.Guarded sizes in_place kept stage)
    (hfits : r.Fits sizes conf in_place .reading) (hreceives : r.Receives conf) {w : Endpoint S} {len : Nat}
    {result : Int × Endpoint S} (hsrc : r.src = .noise w) (hlen : w.frame_len = some len)
    (hlong : r.b.stop < r.b.start + NGX_NSOC_LEN_FIELD_SIZE + len)
    (hcall : r.recv_call conf N fuel w = ok result) : w.Refused result := by
  have hstop := h.stop
  have hnot : w.begun_len = none := by
    cases hbegun : w.begun_len with
    | none => rfl
    | some begun =>
      have hsame : begun = len := by
        unfold Endpoint.begun_len at hbegun
        split_ifs at hbegun
        rw [hlen] at hbegun
        exact (Option.some.inj hbegun).symm
      have hle := hfits.frame rfl hreceives w begun hsrc hbegun
      dsimp only [NGX_NSOC_LEN_FIELD_SIZE, NOISE_PROTOCOL_MAC_DATA_SIZE] at hlong hle
      omega
  exact Endpoint.refused_of_not_begun (w := { w with mem := r.heap.relay }) hlen hnot hcall

theorem Guarded.step (hN : N.Tagged) (hP : Confines P sizes in_place kept) {x y : Stage × Relay S D}
    (hx : x.1 ≠ .ended → x.2.Guarded sizes in_place kept x.1) (hfits : x.2.Fits sizes conf in_place x.1)
    (hstep : Step conf P N fuel x y) :
    (x.2.b.stop = x.2.b.start + sizes.block + 20 ∧ Spares conf N fuel x y) ∧
      (y.1 ≠ .ended → y.2.Guarded sizes in_place kept y.1) := by
  have hquiet : ∀ {stage : Stage} {t : Relay S D} {z : Stage × Relay S D}, stage ≠ .reading →
      t.heap.relay.WritesWithin z.2.heap.relay (Set.Ico t.b.start t.b.stop) →
      Spares conf N fuel (stage, t) z :=
    fun hstage hwrites => ⟨hwrites, fun hreading => absurd hreading hstage⟩
  have hsame : ∀ {heap heap' : Heap} {space : Set Nat}, heap' = heap →
      heap.relay.WritesWithin heap'.relay space := by
    rintro heap _ space rfl
    exact .refl _ _
  cases hstep with
  | enter r do_write elapsed =>
    have h := hx (by simp)
    refine ⟨⟨h.stop, hquiet (by simp) (.refl _ _)⟩, fun _ => ?_⟩
    have hreset : r.reset.Guarded sizes in_place kept .writing := h.reset
    exact ⟨hreset.start, hreset.stop, hreset.address, hreset.plain, hreset.frame, hreset.dst, hreset.based⟩
  | write r r' hwrite =>
    have h := hx (by simp)
    cases write_half hwrite with
    | skipped =>
      refine ⟨⟨h.stop, hquiet (by simp) (.refl _ _)⟩, fun _ => ?_⟩
      exact h.transfer rfl rfl (fun _ => h.plain (by simp)) h.frame h.dst h.based
    | @written rc s hconnected hdo_write hfiltered hrc =>
      obtain ⟨hwrites, hnext⟩ := h.after_filter hP hconnected hdo_write hfits hfiltered
      have hheap : (s.update_chains P).rewind.heap = s.heap := by
        obtain ⟨b, hrewind, -⟩ := rewind_eq (s.update_chains P)
        rw [hrewind]
        rfl
      refine ⟨⟨h.stop, hquiet (by simp) ?_⟩, fun _ => hnext hrc⟩
      rw [hheap]
      exact hwrites
  | write_end r r' exit hwrite =>
    have h := hx (by simp)
    cases write_half hwrite with
    | ended hconnected hdo_write exit hfiltered =>
      obtain ⟨hwrites, -⟩ := h.after_filter hP hconnected hdo_write hfits hfiltered
      exact ⟨⟨h.stop, hquiet (by simp) hwrites⟩, fun hend => absurd rfl hend⟩
  | read r r' hread =>
    have h := hx (by simp)
    obtain ⟨hnext, hwrites⟩ := h.after_read hN hfits hread
    exact ⟨⟨h.stop, hwrites, fun _ hreceives w len result hsrc hlen hlong hcall =>
      h.refuses hfits hreceives hsrc hlen hlong hcall⟩, fun _ => hnext⟩
  | leave r r' exit hread =>
    have h := hx (by simp)
    obtain ⟨hleft, hwrites⟩ := h.after_read hN hfits hread
    have hrefuses : ∀ y : Stage × Relay S D, y.2.heap = r'.heap →
        Spares conf N fuel (.reading, r) y := by
      intro y hy
      refine ⟨?_, fun _ hreceives w len result hsrc hlen hlong hcall =>
        h.refuses hfits hreceives hsrc hlen hlong hcall⟩
      rw [hy]
      exact hwrites
    cases exit with
    | some exit => exact ⟨⟨h.stop, hrefuses _ rfl⟩, fun hend => absurd rfl hend⟩
    | none =>
      obtain ⟨events, write_timer, hleave⟩ := leave_eq conf P r'
      have hbehind : (r'.behind conf P none).2 = { r' with events, write_timer } := hleave
      refine ⟨⟨h.stop, hrefuses _ (by rw [hbehind])⟩, fun hend => ?_⟩
      have hidle : (r'.behind conf P none).1 = .idle := by
        change (r'.leave conf P).1.stage ≠ .ended at hend
        show (r'.leave conf P).1.stage = .idle
        cases hexit : (r'.leave conf P).1 with
        | returned => rfl
        | finalized rc => exact absurd (by rw [hexit]; rfl) hend
        | next_upstream => exact absurd (by rw [hexit]; rfl) hend
      rw [hbehind, hidle]
      exact hleft.transfer rfl rfl hleft.plain hleft.frame hleft.dst hleft.based
  | connect r dst dst_read hconnected hdst =>
    have h := hx (by simp)
    obtain ⟨hnext, hheap⟩ := h.after_connect hP conf dst_read hdst
    exact ⟨⟨h.stop, hquiet (by simp) (hsame hheap)⟩, fun _ => hnext⟩
  | elsewhere r r' hr =>
    have h := hx (by simp)
    obtain ⟨hnext, hheap⟩ := h.after_elsewhere hP hr
    exact ⟨⟨h.stop, hquiet (by simp) (hsame hheap)⟩, fun _ => hnext⟩

theorem Guarded.of_initial (hP : Confines P sizes in_place kept) (h : r.Initial conf P sizes.block) :
    r.Guarded sizes in_place kept .idle := by
  refine ⟨h.start, ?_, h.address, fun hnot => absurd rfl hnot, fun w hw => ?_,
    fun hr => hP.fresh (h.dst hr), fun _ i hi => ?_⟩
  · exact h.stop
  · have hfresh := h.src
    rw [hw] at hfresh
    exact Endpoint.confined_of_none hfresh.1
  · rw [h.saved, h.out] at hi
    cases hi

end

/-- Every step of every run whose steps all meet the condition spares what lies around the buffer of the
relay. -/
def Sparing (sizes : BufferSizes) (conf : RelayConf) (P : Destination D) (N : NoiseC S) (fuel : Nat)
    (in_place : Bool) : Prop :=
  ∀ (r : Relay S D) (x y : Stage × Relay S D), r.Initial conf P sizes.block →
    Run conf P N fuel (fun stage r => r.Fits sizes conf in_place stage) (.idle, r) x →
    x.2.Fits sizes conf in_place x.1 → Step conf P N fuel x y →
    x.2.b.stop = x.2.b.start + sizes.block + NOISE_PROTOCOL_MAC_DATA_SIZE + 2 * NGX_NSOC_LEN_FIELD_SIZE ∧
      Spares conf N fuel x y

theorem sparing_of_confines {sizes : BufferSizes} {conf : RelayConf} {P : Destination D} {N : NoiseC S}
    {fuel : Nat} {in_place : Bool} {kept : D → Prop} (hN : N.Tagged) (hP : Confines P sizes in_place kept) :
    Sparing sizes conf P N fuel in_place := by
  intro r x y hinitial hrun hfits hstep
  have hx := Run.invariant (fun stage t => stage ≠ .ended → t.Guarded sizes in_place kept stage)
    (fun y z hy hcond hnext => (Guarded.step hN hP hy hcond hnext).2)
    (fun _ => Guarded.of_initial hP hinitial) hrun
  exact (Guarded.step hN hP hx hfits hstep).1

/-- In a run whose frames and blocks fit, what a relay stores around its buffer stays in the buffer, whichever
connection it writes to: one that frames are sealed for, or one in clear text. The memory of `nc->buf`, into
which a connection to the upstream server copies the blocks, is not part of this. -/
theorem sparing_of_fits (sizes : BufferSizes) (conf : RelayConf) (update : UpdateChains) (N : NoiseC S)
    (fuel ngx_pagesize : Nat) (hN : N.Tagged) :
    Sparing sizes conf (sizes.destination update N fuel ngx_pagesize conf.from_upstream) N fuel
        conf.from_upstream ∧
      ∀ (D : Type) (P : Destination D), P.ReadOnly → Sparing sizes conf P N fuel false :=
  ⟨sparing_of_confines hN (NoiseDst.confines_destination hN sizes update ngx_pagesize conf.from_upstream),
    fun _ _ hP => sparing_of_confines hN (confines_of_read_only sizes hP)⟩

/-- A direction to the client, from a noise connection that delivers `items`. -/
def noise_to_client (preread : Nat) (items : List Net.Item) : Relay Pattern (NoiseDst Pattern) :=
  let w := Endpoint.pattern_server items false
  { to_client 2 (client_dst preread) with
    src := .noise { w with c := { w.c with read := { w.c.read with ready := true } } } }

/-- A frame of 20 bytes whose payload says that it has `size` of them. -/
def short_frame (size : UInt8) : List Net.Item := [.data 0 ([20, 0, size, 7, 8] ++ Pattern.tag)]

/-- A frame of 25 bytes. -/
def long_frame : List Net.Item := [.data 0 ([25, 0, 2, 7, 8, 0, 0, 0, 0, 0] ++ Pattern.tag)]

theorem initial_noise_to_client (sizes : BufferSizes) (items : List Net.Item) (hblock : sizes.block = 2) :
    (noise_to_client sizes.preread items).Initial to_client_conf
      (sizes.destination .in_order pattern_xx 100 4096 true) sizes.block := by
  refine ⟨Nat.succ_ne_zero 99, ?_, ?_, ⟨rfl, ?_⟩, fun _ => ⟨⟨rfl, rfl, rfl, rfl⟩, rfl, rfl⟩, rfl, rfl, rfl,
    rfl, rfl⟩
  · rw [hblock]
    rfl
  · show (122 : Nat) < 2 ^ 63
    decide
  · intro len hlen
    cases hlen

/-- The direction behind the start of its first call. -/
def entered_noise (preread : Nat) (items : List Net.Item) : Relay Pattern (NoiseDst Pattern) :=
  (noise_to_client preread items).enter true 0

/-- Nothing is sealed where there is no link. -/
theorem fits_of_no_link {sizes : BufferSizes} {conf : RelayConf} {in_place : Bool} {stage : Stage}
    {r : Relay S D} (hstage : stage ≠ .reading) (hnone : r.saved ++ r.out = []) :
    r.Fits sizes conf in_place stage := by
  refine ⟨fun hreading => absurd hreading hstage, fun _ _ _ _ i hi => ?_⟩
  rw [hnone] at hi
  cases hi

theorem run_short_frame : Run to_client_conf (equal_sizes.destination .in_order pattern_xx 100 4096 true)
    pattern_xx 100 (fun stage r => r.Fits equal_sizes to_client_conf true stage)
    (.idle, noise_to_client 2 (short_frame 2)) (.reading, entered_noise 2 (short_frame 2)) := by
  apply Run.tail _ (fits_of_no_link (by decide) rfl)
    (.write (entered_noise 2 (short_frame 2)) (entered_noise 2 (short_frame 2)) rfl)
  exact Run.of_step (fits_of_no_link (by decide) rfl) (.enter _ true 0)

theorem fits_short_frame :
    (entered_noise 2 (short_frame 2)).Fits equal_sizes to_client_conf true .reading := by
  refine ⟨fun _ _ w len hsrc hlen => ?_, nofun⟩
  cases hsrc
  have hshort : (20 : Nat) = len := Option.some.inj hlen
  rw [← hshort]
  decide

/-- A frame of the largest size that fits is read, and its payload is sealed in place. -/
theorem sparing_of_short_frame : ∃ x y : Relay Pattern (NoiseDst Pattern),
    x.payload = [7, 8] ∧ x.out = [0] ∧ y.out = [] ∧
      x.heap.relay.WritesWithin y.heap.relay (Set.Ico 100 122) := by
  have hpass : ∃ r,
      (entered_noise 2 (short_frame 2)).process_read to_client_conf pattern_xx 100 = ok (.cont r) ∧
      ∃ r', r.process_write to_client_conf (equal_sizes.destination .in_order pattern_xx 100 4096 true) =
        ok (none, r') ∧ r.payload = [7, 8] ∧ r.out = [0] ∧ r'.out = [] ∧ r.b.start = 100 ∧ r.b.stop = 122 ∧
        r.links.Sealable equal_sizes 0 ∧ r.saved = [] :=
    ⟨_, rfl, _, rfl, rfl, rfl, rfl, rfl, rfl, fun _ => .inl (by decide), rfl⟩
  obtain ⟨r, hread, r', hwrite, hpayload, hout, hout', hlow, hhigh, hseal, hsaved⟩ := hpass
  have hrun := Run.tail run_short_frame fits_short_frame (.read (entered_noise 2 (short_frame 2)) r hread)
  have hlast : r.Fits equal_sizes to_client_conf true .writing := by
    refine ⟨nofun, fun _ _ _ _ i hi => ?_⟩
    rw [hsaved, hout, List.nil_append, List.mem_singleton] at hi
    rw [hi]
    exact hseal
  have hspares := ((sparing_of_fits equal_sizes to_client_conf .in_order pattern_xx 100 4096 tagged_pattern_xx).1 _ _ _
    (initial_noise_to_client equal_sizes (short_frame 2) rfl) hrun hlast (.write r r' hwrite)).2
  refine ⟨r, r', hpayload, hout, hout', ?_⟩
  rw [← hlow, ← hhigh]
  exact hspares.stores

/-- The sizes `preread_buffer_size 3` and `block_buffer_size 2`. -/
def larger_preread : BufferSizes := { equal_sizes with preread := 3, preread_le := by decide }

/-- A frame that is longer than the buffer of the relay is read, stored beyond its end, and accepted; and a
payload that is longer than `block_buffer_size` is sealed in place with its tag beyond the end. -/
theorem not_sparing_of_long_frame :
    (∃ (sizes : BufferSizes) (r x y : Relay Pattern (NoiseDst Pattern)),
      r.Initial to_client_conf (sizes.destination .in_order pattern_xx 100 4096 true) sizes.block ∧
      Run to_client_conf (sizes.destination .in_order pattern_xx 100 4096 true) pattern_xx 100 (fun _ _ => True)
        (.idle, r) (.reading, x) ∧
      Step to_client_conf (sizes.destination .in_order pattern_xx 100 4096 true) pattern_xx 100 (.reading, x)
        (.writing, y) ∧
      y.payload = [7, 8] ∧
      ¬ x.heap.relay.WritesWithin y.heap.relay (Set.Ico x.b.start x.b.stop)) ∧
    ∃ (sizes : BufferSizes) (r x y : Relay Pattern (NoiseDst Pattern)),
      r.Initial to_client_conf (sizes.destination .in_order pattern_xx 100 4096 true) sizes.block ∧
      Run to_client_conf (sizes.destination .in_order pattern_xx 100 4096 true) pattern_xx 100 (fun _ _ => True)
        (.idle, r) (.writing, x) ∧
      Step to_client_conf (sizes.destination .in_order pattern_xx 100 4096 true) pattern_xx 100 (.writing, x)
        (.reading, y) ∧
      ¬ x.heap.relay.WritesWithin y.heap.relay (Set.Ico x.b.start x.b.stop) := by
  constructor
  · have hpass : ∃ y, (entered_noise 2 long_frame).process_read to_client_conf pattern_xx 100 = ok (.cont y) ∧
        y.payload = [7, 8] ∧ y.heap.relay.written =
          [(102, 9), (102, 25)] ++ (entered_noise 2 long_frame).heap.relay.written :=
      ⟨_, rfl, rfl, rfl⟩
    obtain ⟨y, hread, hpayload, hwritten⟩ := hpass
    refine ⟨equal_sizes, _, _, y, initial_noise_to_client equal_sizes long_frame rfl, ?_,
      .read (entered_noise 2 long_frame) y hread, hpayload, ?_⟩
    · apply Run.tail _ trivial (.write (entered_noise 2 long_frame) _ rfl)
      exact Run.of_step trivial (.enter _ true 0)
    · have hbody : (102, 25) ∈ [(102, 9), (102, 25)] := by simp
      apply Memory.not_within_of_written (x := 126) hwritten hbody
      · decide
      · show 126 ∉ Set.Ico 100 122
        simp
  · have hpass : ∃ x, (entered_noise 3 (short_frame 3)).process_read to_client_conf pattern_xx 100 =
        ok (.cont x) ∧ x.b.start = 100 ∧ x.b.stop = 122 ∧
        ∃ y, x.process_write to_client_conf (larger_preread.destination .in_order pattern_xx 100 4096 true) =
          ok (none, y) ∧
          y.heap.relay.written = [(100, 2), (102, 21), (102, 2)] ++ x.heap.relay.written :=
      ⟨_, rfl, rfl, rfl, _, rfl, rfl⟩
    obtain ⟨x, hread, hlow, hhigh, y, hwrite, hwritten⟩ := hpass
    refine ⟨larger_preread, _, x, y, initial_noise_to_client larger_preread (short_frame 3) rfl, ?_,
      .write x y hwrite, ?_⟩
    · apply Run.tail _ trivial (.read (entered_noise 3 (short_frame 3)) x hread)
      apply Run.tail _ trivial (.write (entered_noise 3 (short_frame 3)) _ rfl)
      exact Run.of_step trivial (.enter _ true 0)
    · have hsealed : (102, 21) ∈ [(100, 2), (102, 21), (102, 2)] := by simp
      apply Memory.not_within_of_written (x := 122) hwritten hsealed
      · decide
      · rw [hlow, hhigh]
        simp

end Relay

end ngx_nsoc
