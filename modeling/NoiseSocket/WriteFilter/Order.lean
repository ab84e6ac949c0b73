import NoiseSocket.WriteFilter
import Mathlib.Data.List.Basic
import Mathlib.Tactic.Common

open Exec Exec.Result

namespace ngx_nsoc

variable {L W : Type}

/-- `send_chain` takes links from the front of the chain only, and what it leaves carries bytes where
it did before. -/
structure Sender.TakesFront (P : Sender L W) : Prop where
  rest : ∀ chain w rest w', P.send_chain chain w = ok (some rest, w') → rest <:+ chain
  size : ∀ chain w rest w', P.send_chain chain w = ok (some rest, w') →
    ∀ l ∈ rest, (P.buf w' l).size = 0 ↔ (P.buf w l).size = 0

/-- The links of a chain that are not among what `send_chain` leaves. -/
def consumed (chain : List L) : Option (List L) → List L
  | none => []
  | some rest => chain.take (chain.length - rest.length)

/-- The same connection with a list of the links that `send_chain` has taken. -/
def Sender.recording (P : Sender L W) : Sender L (W × List L) where
  send_chain chain w := do
    let sent ← P.send_chain chain w.1
    ok (sent.1, sent.2, w.2 ++ consumed chain sent.1)
  buf w := P.buf w.1
  lowlevel_buffered w := P.lowlevel_buffered w.1

namespace WriteFilter

/-- A call gives up in front of the new chain: there is no context, the connection has failed, or a
link that was saved has lost its bytes. -/
def refuses (P : Sender L W) (f : WriteFilter L W) : Bool :=
  !f.get_ctx.1 || f.get_ctx.2.error || f.get_ctx.2.out.any fun l => (P.buf f.get_ctx.2.world l).zero_size

/-- The links with `payload` are those that carry bytes. -/
def Carrying (P : Sender L W) (payload : L → Bool) (w : W) (links : List L) : Prop :=
  ∀ l ∈ links, payload l = false ↔ (P.buf w l).size = 0

/-- Calls of the filter in one direction, none of which fails while it adds its chain, with the links of
all calls that did not refuse theirs. Between two calls anything may happen to the connection, apart
from the chain and the flag of the filter. -/
inductive Calls (P : Sender L W) (need_last_buf shared : Bool) (payload : L → Bool)
    (start : WriteFilter L (W × List L)) : List L → WriteFilter L (W × List L) → Prop where
  | refl : Calls P need_last_buf shared payload start [] start
  | call {given links : List L} {f f' : WriteFilter L (W × List L)} {n : Int}
      (h : Calls P need_last_buf shared payload start given f)
      (hlinks : Carrying P payload f.world.1 links)
      (hcall : f.write_filter P.recording need_last_buf shared links = ok (n, f'))
      (hadded : f.refuses P.recording = false → (f.get_ctx.2.add_chain P.recording links).1 = true) :
      Calls P need_last_buf shared payload start (given ++ if f.refuses P.recording then [] else links) f'
  | elsewhere {given : List L} {f : WriteFilter L (W × List L)}
      (h : Calls P need_last_buf shared payload start given f) (ctx error : Bool) (allocs : List Bool)
      (w : W) (hctx : f.ctx = true → ctx = true) (hsize : Carrying P payload w f.out) :
      Calls P need_last_buf shared payload start given
        { f with ctx, error, allocs, world := (w, f.world.2) }

/-- A direction that has not been used yet. -/
structure Unused (f : WriteFilter L (W × List L)) : Prop where
  out : f.out = []
  ended : f.ended = true
  taken : f.world.2 = []

/-- What the filter holds and what `send_chain` has taken are the links that were given, as far as they
carry bytes. The buffers count as long as the connection has not failed. -/
structure Kept (P : Sender L W) (payload : L → Bool) (given : List L) (f : WriteFilter L (W × List L)) :
    Prop where
  order : (f.world.2 ++ f.out).filter payload = given.filter payload
  carrying : f.error = false → Carrying P payload f.world.1 f.out
  ctx : f.ctx = false → f.out = []

section

variable {P : Sender L W} {payload : L → Bool} {need_last_buf shared : Bool} {given links : List L}

theorem filter_of_carrying {w : W} {chain : List L} (h : Carrying P payload w chain)
    (hsize : ∀ l ∈ chain, (P.buf w l).size = 0) : chain.filter payload = [] := by
  rw [List.filter_eq_nil_iff]
  intro l hl
  rw [(h l hl).mpr (hsize l hl)]
  simp

theorem Kept.get_ctx {f : WriteFilter L (W × List L)} (h : Kept P payload given f) :
    Kept P payload given f.get_ctx.2 ∧ f.get_ctx.2.world = f.world := by
  unfold WriteFilter.get_ctx
  split_ifs with hctx halloc
  · exact ⟨h, rfl⟩
  · have hout := h.ctx (by simpa using hctx)
    have horder := h.order
    rw [hout] at horder
    exact ⟨⟨horder, fun _ => by simp [Carrying], fun _ => rfl⟩, rfl⟩
  · exact ⟨⟨h.order, h.carrying, h.ctx⟩, rfl⟩

theorem refuses_eq_false {Q : Sender L W} {f : WriteFilter L W} (h : f.refuses Q = false) :
    (f.get_ctx.1 = true ∧ f.get_ctx.2.error = false) ∧
      (f.get_ctx.2.out.any fun l => (Q.buf f.get_ctx.2.world l).zero_size) = false := by
  unfold refuses at h
  rw [Bool.or_eq_false_iff, Bool.or_eq_false_iff, Bool.not_eq_false'] at h
  exact h

/-- The whole chain is walked, unless a buffer of no bytes is in it. -/
theorem walk_eq (Q : Sender L W) (f : WriteFilter L W) (links : List L) :
    f.walk Q links = if links.any fun l => (Q.buf f.world l).zero_size then ok false
      else if f.ended then ok true else fault := by
  induction links with
  | nil => rfl
  | cons l links ih =>
    by_cases hzero : (Q.buf f.world l).zero_size = true
    · simp [walk, hzero]
    · simp [walk, hzero, ih]

/-- A call that has a context keeps it. -/
theorem ctx_get_ctx {f : WriteFilter L W} (h : f.get_ctx.1 = true) : f.get_ctx.2.ctx = true := by
  unfold WriteFilter.get_ctx at h ⊢
  split_ifs at h ⊢ with hctx halloc
  · exact hctx
  · rfl

/-- The links that were added, where that did not fail. -/
theorem add_chain_cases {Q : Sender L W} {links : List L} {f : WriteFilter L W}
    (h : (f.add_chain Q links).1 = true) :
    ∃ allocs, (f.add_chain Q links).2 = { f with out := f.out ++ links, ended := true, allocs } := by
  induction links generalizing f with
  | nil => exact ⟨f.allocs, by rw [List.append_nil]; rfl⟩
  | cons ln links ih =>
    unfold add_chain at h ⊢
    dsimp only at h ⊢
    split_ifs at h ⊢ with hgranted hzero
    obtain ⟨allocs, hrest⟩ := ih h
    refine ⟨allocs, ?_⟩
    rw [hrest]
    simp [ngx_alloc]

end

/-- How a call ends that has added its chain. -/
inductive SentOut (Q : Sender L W) (f : WriteFilter L W) : Int → WriteFilter L W → Prop where
  | dropped (hsize : ∀ l ∈ f.out, (Q.buf f.world l).size = 0) (hlow : Q.lowlevel_buffered f.world = false) :
      SentOut Q f NGX_OK { f with out := [], write_buffered := false }
  | empty : SentOut Q f NGX_ERROR f
  | failed {w : W} (hsend : Q.send_chain f.out f.world = ok (none, w)) :
      SentOut Q f NGX_ERROR { f with world := w, error := true }
  | whole {w : W} (hsend : Q.send_chain f.out f.world = ok (some [], w)) :
      SentOut Q f (if Q.lowlevel_buffered w then NGX_AGAIN else NGX_OK)
        { f with out := [], write_buffered := false, world := w }
  | busy {chain : List L} {w : W} (hsend : Q.send_chain f.out f.world = ok (some chain, w)) :
      SentOut Q f NGX_ERROR { f with out := chain, world := w }
  | pending {chain : List L} {w : W} (hchain : chain ≠ [])
      (hsend : Q.send_chain f.out f.world = ok (some chain, w)) :
      SentOut Q f NGX_AGAIN { f with out := chain, write_buffered := true, world := w }

theorem send_out_cases {Q : Sender L W} {need_last_buf shared : Bool} {f f' : WriteFilter L W} {n : Int}
    (h : f.send_out Q need_last_buf shared = ok (n, f')) : SentOut Q f n f' := by
  unfold send_out at h
  dsimp only at h
  split at h
  · rename_i hempty
    split at h
    · cases h
      refine .dropped (fun l hl => ?_) (by simpa using hempty.2.1)
      have hzero := List.sum_eq_zero_iff_forall_eq_nat.mp hempty.1
      exact hzero _ (List.mem_map_of_mem (List.mem_map_of_mem hl))
    · cases h
      exact .empty
  · obtain ⟨⟨sent, w⟩, hsend, hrest⟩ := bind_eq_ok_iff.mp h
    cases sent with
    | none =>
      cases hrest
      exact .failed hsend
    | some chain =>
      cases chain with
      | nil =>
        cases hrest
        exact .whole hsend
      | cons l chain =>
        dsimp only at hrest
        split_ifs at hrest <;> cases hrest
        · exact .busy hsend
        · exact .pending (by simp) hsend

/-- How a call ends. -/
inductive Wrote (Q : Sender L W) (links : List L) (f : WriteFilter L W) : Int → WriteFilter L W → Prop where
  | refused (hrefuses : f.refuses Q = true) : Wrote Q links f NGX_ERROR f.get_ctx.2
  | not_added (hrefuses : f.refuses Q = false) (hadd : (f.get_ctx.2.add_chain Q links).1 = false) :
      Wrote Q links f NGX_ERROR (f.get_ctx.2.add_chain Q links).2
  | sent {n : Int} {f' : WriteFilter L W} (hrefuses : f.refuses Q = false)
      (hadd : (f.get_ctx.2.add_chain Q links).1 = true)
      (hsent : SentOut Q (f.get_ctx.2.add_chain Q links).2 n f') : Wrote Q links f n f'

theorem write_filter_cases {Q : Sender L W} {need_last_buf shared : Bool} {links : List L}
    {f f' : WriteFilter L W} {n : Int} (h : f.write_filter Q need_last_buf shared links = ok (n, f')) :
    Wrote Q links f n f' := by
  unfold write_filter at h
  dsimp only at h
  cases hrefuses : f.refuses Q with
  | true =>
    by_cases hgot : f.get_ctx.1 = true
    swap
    · rw [if_pos hgot] at h
      cases h
      exact .refused hrefuses
    rw [if_neg (not_not.mpr hgot)] at h
    by_cases herror : f.get_ctx.2.error = true
    · rw [if_pos herror] at h
      cases h
      exact .refused hrefuses
    · rw [if_neg herror] at h
      have hzero : (f.get_ctx.2.out.any fun l => (Q.buf f.get_ctx.2.world l).zero_size) = true := by
        simpa [refuses, hgot, herror] using hrefuses
      rw [walk_eq, if_pos hzero, bind_ok] at h
      cases h
      exact .refused hrefuses
  | false =>
    obtain ⟨⟨hgot, herror⟩, hzero⟩ := refuses_eq_false hrefuses
    rw [if_neg (by simp [hgot]), if_neg (by simp [herror]), walk_eq, if_neg (by rw [hzero]; decide)] at h
    by_cases hended : f.get_ctx.2.ended = true
    swap
    · rw [if_neg hended] at h
      cases h
    rw [if_pos hended, bind_ok, if_neg (not_not.mpr rfl)] at h
    split at h
    · rename_i hadd
      cases h
      exact .not_added hrefuses (by simpa using hadd)
    · rename_i hadd
      exact .sent hrefuses (by simpa using hadd) (send_out_cases h)

/-- Behind every call that does not return `NGX_ERROR` the flag says whether links are kept, and
`NGX_OK` says that nothing is, here or below. -/
theorem flag_of_write_filter {Q : Sender L W} {need_last_buf shared : Bool} {links : List L}
    {f f' : WriteFilter L W} {n : Int} (h : f.write_filter Q need_last_buf shared links = ok (n, f'))
    (hn : n ≠ NGX_ERROR) : (f'.write_buffered = true ↔ f'.out ≠ []) ∧
      (n = NGX_OK → f'.out = [] ∧ Q.lowlevel_buffered f'.world = false) := by
  cases write_filter_cases h with
  | refused => exact absurd rfl hn
  | not_added => exact absurd rfl hn
  | sent hrefuses hadd hsent =>
    cases hsent with
    | dropped hsize hlow => exact ⟨by simp, fun _ => ⟨rfl, hlow⟩⟩
    | empty => exact absurd rfl hn
    | failed => exact absurd rfl hn
    | @whole w hsend =>
      refine ⟨by simp, fun hok => ⟨rfl, ?_⟩⟩
      by_contra hlow
      rw [if_pos (by simpa using hlow)] at hok
      cases hok
    | busy => exact absurd rfl hn
    | pending hchain => exact ⟨by simp [hchain], fun hok => by cases hok⟩

section

variable {P : Sender L W} {payload : L → Bool} {need_last_buf shared : Bool} {given links : List L}

/-- What a sender with a list gives back. -/
theorem send_chain_recording {w w' : W} {taken taken' : List L} {chain : List L} {rest : Option (List L)}
    (h : P.recording.send_chain chain (w, taken) = ok (rest, w', taken')) :
    P.send_chain chain w = ok (rest, w') ∧ taken' = taken ++ consumed chain rest := by
  obtain ⟨⟨sent, w''⟩, hsend, hrest⟩ := bind_eq_ok_iff.mp h
  cases hrest
  exact ⟨hsend, rfl⟩

/-- The chain that was given to `send_chain` is what it has taken followed by what it has left. -/
theorem Kept.of_rest (hP : P.TakesFront) {f f' : WriteFilter L (W × List L)} {rest : List L}
    (h : Kept P payload given f) (hctx : f.ctx = true) (herror : f.error = false) (w : W × List L)
    (hsend : P.recording.send_chain f.out f.world = ok (some rest, w)) (hout : f'.out = rest)
    (hworld : f'.world = w) (hctx' : f'.ctx = f.ctx) : Kept P payload given f' := by
  obtain ⟨hchain, htaken⟩ := send_chain_recording hsend
  obtain ⟨sent, hsent⟩ := hP.rest _ _ _ _ hchain
  have hfront : consumed f.out (some rest) = sent := by
    rw [consumed, ← hsent, List.length_append, Nat.add_sub_cancel, List.take_left' rfl]
  rw [hfront] at htaken
  refine ⟨?_, ?_, ?_⟩
  · rw [hworld, hout, htaken, List.append_assoc, hsent]
    exact h.order
  · rw [hworld, hout]
    intro _ l hl
    rw [hP.size _ _ _ _ hchain l hl]
    apply h.carrying herror l
    rw [← hsent]
    exact List.mem_append_right _ hl
  · rw [hctx', hctx]
    nofun

theorem Kept.sent_out (hP : P.TakesFront) {f f' : WriteFilter L (W × List L)} {n : Int}
    (h : Kept P payload given f) (hctx : f.ctx = true) (herror : f.error = false)
    (hsent : SentOut P.recording f n f') : Kept P payload given f' := by
  cases hsent with
  | dropped hsize hlow =>
    -- what is dropped carries no byte
    have horder := h.order
    rw [List.filter_append, filter_of_carrying (h.carrying herror) hsize, List.append_nil] at horder
    exact ⟨by simpa using horder, fun _ => by simp [Carrying], fun _ => rfl⟩
  | empty => exact h
  | @failed w hsend =>
    obtain ⟨hchain, htaken⟩ := send_chain_recording hsend
    refine ⟨?_, by rintro ⟨⟩, fun hno => by rw [hctx] at hno; cases hno⟩
    dsimp only
    rw [htaken, consumed, List.append_nil]
    exact h.order
  | @whole w hsend => exact h.of_rest hP hctx herror w hsend rfl rfl rfl
  | @busy chain w hsend => exact h.of_rest hP hctx herror w hsend rfl rfl rfl
  | @pending chain w hchain hsend => exact h.of_rest hP hctx herror w hsend rfl rfl rfl

/-- A step of the calls. -/
theorem Kept.call (hP : P.TakesFront) {f f' : WriteFilter L (W × List L)} {n : Int}
    (h : Kept P payload given f) (hlinks : Carrying P payload f.world.1 links)
    (hcall : f.write_filter P.recording need_last_buf shared links = ok (n, f'))
    (hadded : f.refuses P.recording = false → (f.get_ctx.2.add_chain P.recording links).1 = true) :
    Kept P payload (given ++ if f.refuses P.recording then [] else links) f' := by
  obtain ⟨hgot, hworld⟩ := h.get_ctx
  cases write_filter_cases hcall with
  | refused hrefuses =>
    rw [hrefuses, if_pos rfl, List.append_nil]
    exact hgot
  | not_added hrefuses hadd =>
    rw [hadded hrefuses] at hadd
    cases hadd
  | sent hrefuses hadd hsent =>
    rw [hrefuses, if_neg (by decide)]
    obtain ⟨allocs, hchain⟩ := add_chain_cases hadd
    rw [hchain] at hsent
    obtain ⟨hcontext, herror⟩ := (refuses_eq_false hrefuses).1
    have hctx := ctx_get_ctx hcontext
    refine Kept.sent_out hP ?_ (by exact hctx) (by exact herror) hsent
    refine ⟨?_, ?_, ?_⟩
    · dsimp only
      rw [← List.append_assoc, List.filter_append, hgot.order, List.filter_append]
    · intro _ l hl
      obtain hl | hl := List.mem_append.mp hl
      · exact hgot.carrying herror l hl
      · dsimp only
        rw [hworld]
        exact hlinks l hl
    · intro hno
      rw [hctx] at hno
      cases hno

/-- A step of the rest of the program. -/
theorem Kept.elsewhere {f : WriteFilter L (W × List L)} (h : Kept P payload given f) {ctx : Bool}
    (hctx : f.ctx = true → ctx = true) (error : Bool) (allocs : List Bool) {w : W}
    (hsize : Carrying P payload w f.out) :
    Kept P payload given { f with ctx, error, allocs, world := (w, f.world.2) } := by
  refine ⟨h.order, fun _ => hsize, fun hno => h.ctx ?_⟩
  by_contra hyes
  have hold := hctx (by simpa using hyes)
  dsimp only at hno
  rw [hold] at hno
  cases hno

/-- However often the filter is called, the links that carry bytes and were taken by `send_chain`,
followed by those that are kept, are those of all chains that were not refused, in order; and behind
every call that does not return `NGX_ERROR` the flag and `NGX_OK` say what is pending. -/
theorem write_filter_in_order (hP : P.TakesFront) {start f : WriteFilter L (W × List L)}
    (hstart : start.Unused) (hrun : Calls P need_last_buf shared payload start given f) :
    (f.world.2 ++ f.out).filter payload = given.filter payload ∧
      ∀ links n f', f.write_filter P.recording need_last_buf shared links = ok (n, f') → n ≠ NGX_ERROR →
        (f'.write_buffered = true ↔ f'.out ≠ []) ∧
          (n = NGX_OK → f'.out = [] ∧ P.lowlevel_buffered f'.world.1 = false) := by
  refine ⟨?_, fun links n f' hcall hn => flag_of_write_filter hcall hn⟩
  have hkept : Kept P payload given f := by
    induction hrun with
    | refl =>
      refine ⟨?_, ?_, fun _ => hstart.out⟩
      · rw [hstart.out, hstart.taken]
        rfl
      · rw [hstart.out]
        simp [Carrying]
    | call _ hlinks hcall hadded ih => exact ih.call hP hlinks hcall hadded
    | elsewhere _ ctx error allocs w hctx hsize ih => exact ih.elsewhere hctx error allocs hsize
  exact hkept.order

end

/-- Links of one byte each. -/
def a_byte : FilterBuf :=
  { in_memory := true, in_file := false, size := 1, flush := true, recycled := false, sync := false,
    last_buf := false }

/-- A connection that sends one link at a time. -/
def one_by_one : Sender Nat Unit where
  send_chain chain w := ok (some chain.tail, w)
  buf _ _ := a_byte
  lowlevel_buffered _ := false

theorem one_by_one_takesFront : one_by_one.TakesFront := by
  refine ⟨fun chain w rest w' h => ?_, fun _ _ _ _ _ _ _ => Iff.rfl⟩
  cases h
  exact List.tail_suffix chain

/-- A direction in front of its first call. -/
def unused : WriteFilter Nat (Unit × List Nat) :=
  { ctx := false, out := [], ended := true, error := false, write_buffered := false, allocs := [],
    world := ((), []) }

/-- The same direction behind some calls. -/
def behind (out taken : List Nat) (error : Bool) : WriteFilter Nat (Unit × List Nat) :=
  { unused with ctx := true, out, error, write_buffered := !error, world := ((), taken) }

/-- Two links, and a third one while the second is still there. -/
theorem write_filter_in_order_of_three :
    ([0, 1] ++ [2]).filter (fun _ : Nat => true) = ([0, 1] ++ [2]).filter (fun _ => true) ∧
      ∀ links n f', (behind [2] [0, 1] false).write_filter one_by_one.recording false false links =
        ok (n, f') → n ≠ NGX_ERROR → (f'.write_buffered = true ↔ f'.out ≠ []) ∧
          (n = NGX_OK → f'.out = [] ∧ one_by_one.lowlevel_buffered f'.world.1 = false) := by
  have hcarrying : ∀ links, Carrying one_by_one (fun _ => true) () links := by
    intro links l _
    constructor <;> nofun
  have hfirst : Calls one_by_one false false (fun _ => true) unused [0, 1] (behind [1] [0] false) := by
    exact Calls.call .refl (hcarrying [0, 1]) rfl (fun _ => rfl)
  have hsecond : Calls one_by_one false false (fun _ => true) unused [0, 1, 2]
      (behind [2] [0, 1] false) := by
    exact Calls.call hfirst (hcarrying [2]) rfl (fun _ => rfl)
  exact write_filter_in_order one_by_one_takesFront ⟨rfl, rfl, rfl⟩ hsecond

/-- A connection that fails. -/
def failing : Sender Nat Unit where
  send_chain _ w := ok (none, w)
  buf _ _ := a_byte
  lowlevel_buffered _ := false

/-- Once `send_chain` has failed, the chain of the next call is neither consumed nor saved. -/
theorem not_in_order_of_failed_connection :
    failing.TakesFront ∧ unused.Unused ∧
      unused.write_filter failing.recording false false [0] = ok (NGX_ERROR, behind [0] [] true) ∧
      (behind [0] [] true).write_filter failing.recording false false [1] =
        ok (NGX_ERROR, behind [0] [] true) ∧
      (∀ l ∈ [0, 1], (failing.buf () l).size = 1) ∧
      (behind [0] [] true).world.2 ++ (behind [0] [] true).out ≠ [0] ++ [1] := by
  refine ⟨⟨nofun, nofun⟩, ⟨rfl, rfl, rfl⟩, rfl, rfl, ?_, by decide⟩
  intro l _
  rfl

end WriteFilter

end ngx_nsoc
