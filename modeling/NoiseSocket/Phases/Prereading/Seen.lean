import NoiseSocket.Phases.Prereading

open Exec Exec.Result

namespace ngx_nsoc

variable {S : Type}

namespace core

namespace Prereading

variable {H : Type} {N : NoiseC S} {fuel addr : Nat} {conf : SrvConf} {x : Prereading S} {s : Session H}

/-- What the phases keep of it: the events of the connection that the loop looks at, and the room left in
`c->buffer`. -/
structure Seen (s : Session H) (x : Prereading S) : Prop where
  ready : s.client.c.read.ready = x.w.c.read.ready
  eof : s.client.c.read.eof = x.w.c.read.eof
  buffer : s.client.buffer = x.buffer.map fun b => b.stop - b.last

/-- The same outcome of a pass, with a state that is seen. -/
inductive SeenFlow : ControlFlow (Int × Session H) (Session.Preread H) →
    ControlFlow (Int × Prereading S) (PrereadEnd S) → Prop
  | cont (rc : Int) {s : Session H} {x : Prereading S} (h : Seen s x) : SeenFlow (.cont (rc, s)) (.cont (rc, x))
  | suspended {s : Session H} {x : Prereading S} (h : Seen s x) :
      SeenFlow (.done (.suspended s)) (.done (.suspended x))
  | left (rc : Int) {s : Session H} {x : Prereading S} (h : Seen s x) :
      SeenFlow (.done (.left rc s)) (.done (.left rc x))

/-- The session with other answers of the operating system. -/
def answered (s : Session H) (recvs : List Received) (events allocs : List Bool) : Session H :=
  { s with client := { s.client with recvs, events, allocs } }

theorem Seen.prepare_buffer (hs : Seen s x) {b? : Option RawBuf} {v : Endpoint S}
    (hprepare : x.prepare_buffer conf addr = (b?, v)) (recvs : List Received) (events : List Bool) :
    ∃ t, (answered s recvs events [x.w.ngx_alloc.1]).prepare_buffer conf =
        (b?.map fun b => b.stop - b.last, t) ∧ Seen t ⟨v, b?⟩ ∧
      t.client.recvs = recvs ∧ t.client.events = events := by
  have hbuffer := hs.buffer
  have hkept : x.w.ngx_alloc.2.c = x.w.c := rfl
  refine ⟨_, Prod.ext ?_ rfl, ?_⟩
  all_goals
    unfold Prereading.prepare_buffer at hprepare
    unfold Session.prepare_buffer
  · cases hx : x.buffer with
    | some b =>
      rw [hx] at hprepare hbuffer
      cases hprepare
      simp [answered, hbuffer]
    | none =>
      rw [hx] at hprepare hbuffer
      dsimp only at hprepare
      split_ifs at hprepare with halloc
      all_goals
        cases hprepare
        simp [answered, hbuffer, nextAnswer, halloc]
  · cases hx : x.buffer with
    | some b =>
      rw [hx] at hprepare hbuffer
      cases hprepare
      refine ⟨⟨?_, ?_, ?_⟩, ?_, ?_⟩
      all_goals simp [answered, hbuffer, hs.ready, hs.eof]
    | none =>
      rw [hx] at hprepare hbuffer
      dsimp only at hprepare
      split_ifs at hprepare with halloc
      all_goals
        cases hprepare
        refine ⟨⟨?_, ?_, ?_⟩, ?_, ?_⟩
        all_goals simp [answered, hbuffer, nextAnswer, halloc, hs.ready, hs.eof, hkept]

/-- `c->recv` with an answer that is its own. -/
theorem Seen.recv {t : Session H} {v u : Endpoint S} {b : RawBuf} {n : Int} (ht : Seen t ⟨v, some b⟩)
    (hrecvs : t.client.recvs = [⟨n, u.c.read.ready, u.c.read.eof⟩]) :
    (t.recv (b.stop - b.last)).1 = n ∧ Seen (t.recv (b.stop - b.last)).2
      ⟨u, some (if 0 < n then { b with last := b.last + n.toNat } else b)⟩ := by
  have hbuffer := ht.buffer
  refine ⟨by simp [Session.recv, hrecvs], ?_, ?_, ?_⟩
  · simp [Session.recv, hrecvs]
  · simp [Session.recv, hrecvs]
  · by_cases hdata : 0 < n
    · simp [Session.recv, hrecvs, hdata, Nat.sub_sub]
    · simp [Session.recv, hrecvs, hdata, hbuffer]

/-- A handler that leaves the connection alone. -/
theorem call_handler_idle {handle : Handle H} {ph : PhaseHandler H} {h : H} (hh : ph.handler = some h)
    {rc : Int} (hhandle : ∀ calls client, handle calls h client = (rc, client)) (t : Session H) :
    ∃ t', t.call_handler handle ph = ok (rc, t') ∧ t'.client = t.client := by
  refine ⟨{ t with calls := ⟨t.phase_handler, some h, some rc⟩ :: t.calls }, ?_, rfl⟩
  simp only [Session.call_handler, hh, hhandle]

/-- Every pass is one that the phases see, with what `c->recv` answers and leaves in the read event. The
handler returns `rc'` and leaves the connection alone. -/
theorem Seen.preread_pass (hs : Seen s x) {handle : Handle H} {ph : PhaseHandler H} {h : H}
    (hh : ph.handler = some h) {rc rc' : Int}
    (hhandle : ∀ calls client, handle calls h client = (rc', client))
    {flow : ControlFlow (Int × Prereading S) (PrereadEnd S)}
    (hpass : Prereading.preread_pass N fuel conf addr rc' (rc, x) = ok flow) :
    ∃ recvs events allocs flow', SeenFlow flow' flow ∧
      Session.preread_pass handle conf ph (rc, answered s recvs events allocs) = ok flow' := by
  unfold Prereading.preread_pass preread_front at hpass
  dsimp only at hpass
  unfold Session.preread_pass
  dsimp only
  by_cases hrc : rc ≠ NGX_AGAIN
  · rw [if_pos hrc] at hpass
    cases hpass
    have hsame : Seen (answered s [] [] []) x := ⟨hs.ready, hs.eof, hs.buffer⟩
    exact ⟨[], [], [], _, .left rc hsame, if_pos hrc⟩
  simp only [if_neg hrc] at hpass ⊢
  rcases hprepare : x.prepare_buffer conf addr with ⟨_ | b, v⟩
  all_goals rw [hprepare] at hpass
  · cases hpass
    obtain ⟨t, ht, hsame, -, -⟩ := hs.prepare_buffer hprepare [] []
    refine ⟨[], [], [x.w.ngx_alloc.1], _, .left NGX_ERROR hsame, ?_⟩
    rw [ht]
    rfl
  dsimp only at hpass
  have hgoes := hs.prepare_buffer hprepare
  by_cases hroom : b.stop - b.last = 0
  · rw [if_pos hroom] at hpass
    cases hpass
    obtain ⟨t, ht, hsame, -, -⟩ := hgoes [] []
    refine ⟨[], [], [x.w.ngx_alloc.1], _, .left NGX_NSOC_BAD_REQUEST hsame, ?_⟩
    simp only [ht, Option.map_some, if_pos hroom]
  rw [if_neg hroom] at hpass
  by_cases heof : v.c.read.eof
  · rw [if_pos heof] at hpass
    cases hpass
    obtain ⟨t, ht, hsame, -, -⟩ := hgoes [] []
    have heof' : t.client.c.read.eof := hsame.eof.trans heof
    refine ⟨[], [], [x.w.ngx_alloc.1], _, .left NGX_NSOC_OK hsame, ?_⟩
    simp only [ht, Option.map_some, if_neg hroom, if_pos heof']
  rw [if_neg heof] at hpass
  by_cases hready : v.c.read.ready
  · rw [if_neg (not_not.mpr hready)] at hpass
    unfold preread_recv at hpass
    rw [bind_eq_ok_iff] at hpass
    obtain ⟨r, -, hrest⟩ := hpass
    obtain ⟨t, ht, hsame, hrecvs, -⟩ := hgoes [⟨r.1, r.2.c.read.ready, r.2.c.read.eof⟩] []
    have heof' : ¬ t.client.c.read.eof := by rwa [hsame.eof]
    have hready' : t.client.c.read.ready := hsame.ready.trans hready
    obtain ⟨hcall, hnext⟩ := hsame.recv hrecvs
    by_cases herror : r.1 = NGX_ERROR
    · rw [if_pos herror] at hrest
      cases hrest
      rw [if_neg (by simp [herror])] at hnext
      refine ⟨[⟨r.1, r.2.c.read.ready, r.2.c.read.eof⟩], [], [x.w.ngx_alloc.1], _, .left NGX_NSOC_OK hnext, ?_⟩
      simp only [ht, Option.map_some, if_neg hroom, if_neg heof', if_neg (not_not.mpr hready'), hcall,
        if_pos herror]
    · rw [if_neg herror] at hrest
      cases hrest
      obtain ⟨t', hcalled, hclient⟩ := call_handler_idle hh hhandle (t.recv (b.stop - b.last)).2
      have hlast : Seen t' ⟨r.2, some (if 0 < r.1 then { b with last := b.last + r.1.toNat } else b)⟩ := by
        constructor
        all_goals rw [hclient]
        · exact hnext.ready
        · exact hnext.eof
        · exact hnext.buffer
      refine ⟨[⟨r.1, r.2.c.read.ready, r.2.c.read.eof⟩], [], [x.w.ngx_alloc.1], _, .cont rc' hlast, ?_⟩
      simp only [ht, Option.map_some, if_neg hroom, if_neg heof', if_neg (not_not.mpr hready'), hcall,
        if_neg herror, hcalled, bind_ok]
  · rw [if_pos hready] at hpass
    obtain ⟨t, ht, hsame, -, hevents⟩ := hgoes [] [decide (v.ngx_handle_event.1 = NGX_OK)]
    have heof' : ¬ t.client.c.read.eof := by rwa [hsame.eof]
    have hready' : ¬ t.client.c.read.ready := by rwa [hsame.ready]
    by_cases hevent : v.ngx_handle_event.1 ≠ NGX_OK
    · rw [if_pos hevent] at hpass
      cases hpass
      have hfails : ¬ t.handle_read_event.1 := by simpa [Session.handle_read_event, hevents, nextAnswer] using hevent
      have hnext : Seen t.handle_read_event.2 ⟨v.ngx_handle_event.2, some b⟩ :=
        ⟨hsame.ready, hsame.eof, hsame.buffer⟩
      refine ⟨[], [decide (v.ngx_handle_event.1 = NGX_OK)], [x.w.ngx_alloc.1], _, .left NGX_ERROR hnext, ?_⟩
      simp only [ht, Option.map_some, if_neg hroom, if_neg heof', if_pos hready', if_pos hfails]
    · rw [if_neg hevent] at hpass
      cases hpass
      have hworks : t.handle_read_event.1 := by
        simpa [Session.handle_read_event, hevents, nextAnswer] using hevent
      have hnext : Seen t.handle_read_event.2.await_read ⟨await_read v.ngx_handle_event.2, some b⟩ :=
        ⟨hsame.ready, hsame.eof, hsame.buffer⟩
      refine ⟨[], [decide (v.ngx_handle_event.1 = NGX_OK)], [x.w.ngx_alloc.1], _, .suspended hnext, ?_⟩
      simp only [ht, Option.map_some, if_neg hroom, if_neg heof', if_pos hready', if_neg (not_not.mpr hworks)]

end Prereading

end core

end ngx_nsoc
