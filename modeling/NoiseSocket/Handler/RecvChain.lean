import NoiseSocket.Handler.Data.Accounts

open Exec Exec.Result

namespace ngx_nsoc

variable {S : Type}

/-- A buffer that is to be read into: the free bytes from `b->last` to `b->end`. -/
structure FreeBuf where
  last : Nat
  stop : Nat
  hle : last ≤ stop

namespace FreeBuf

def space (b : FreeBuf) : Set Nat := Set.Ico b.last b.stop

def room (b : FreeBuf) : Nat := b.stop - b.last

/-- The first `n` bytes of the space in the buffers. -/
def account (mem : Memory) : List FreeBuf → Nat → List UInt8
  | [], _ => []
  | b :: next, n => mem.read b.last (min n b.room) ++ account mem next (n - b.room)

@[simp]
theorem account_zero (mem : Memory) (bufs : List FreeBuf) : account mem bufs 0 = [] := by
  induction bufs with
  | nil => rfl
  | cons b next ih => simp [account, ih]

theorem account_within (mem : Memory) (b : FreeBuf) (next : List FreeBuf) {n : Nat} (h : n ≤ b.room) :
    account mem (b :: next) n = mem.read b.last n := by
  rw [account, Nat.min_eq_left h, Nat.sub_eq_zero_of_le h, account_zero, List.append_nil]

/-- Behind buffers that are full the account goes on in the next one. -/
theorem account_full (mem : Memory) (full next : List FreeBuf) (n : Nat) :
    account mem (full ++ next) ((full.map room).sum + n) =
      account mem full (full.map room).sum ++ account mem next n := by
  induction full with
  | nil => simp [account]
  | cons b full ih =>
    have hleft : b.room + (full.map room).sum + n - b.room = (full.map room).sum + n := by omega
    have hmin : min (b.room + (full.map room).sum + n) b.room = b.room := by omega
    have hmin' : min (b.room + (full.map room).sum) b.room = b.room := by omega
    rw [List.cons_append, List.map_cons, List.sum_cons, account, account, hleft, hmin, hmin',
      Nat.add_sub_cancel_left, ih, List.append_assoc]

/-- Buffers apart from what was written read as before. -/
theorem account_congr {mem mem' : Memory} {offered : Set Nat} (h : mem.WritesWithin mem' offered)
    {bufs : List FreeBuf} (hapart : ∀ b ∈ bufs, ∀ x ∈ b.space, x ∉ offered) (n : Nat) :
    account mem' bufs n = account mem bufs n := by
  induction bufs generalizing n with
  | nil => rfl
  | cons b next ih =>
    have hbuf : mem'.read b.last (min n b.room) = mem.read b.last (min n b.room) := by
      apply h.read
      intro x hx
      have hout : x ∉ b.space := fun hin => hapart b List.mem_cons_self x hin hx
      simp only [space, Set.mem_Ico, not_and_or, Nat.not_le, Nat.not_lt] at hout
      simp only [room]
      omega
    rw [account, account, hbuf, ih fun b hb => hapart b (List.mem_cons_of_mem _ hb)]

end FreeBuf

/-- A chain of buffers to read into, apart from each other. -/
structure FreeChain where
  buf : FreeBuf
  next : List FreeBuf
  apart : (buf :: next).Pairwise fun b b' => ∀ x ∈ b.space, x ∉ b'.space
  addressed : ∀ b ∈ buf :: next, b.last ≠ 0

namespace FreeChain

def bufs (cl : FreeChain) : List FreeBuf := cl.buf :: cl.next

/-- The space in the buffers. -/
def space (cl : FreeChain) : Set Nat := {x | ∃ b ∈ cl.bufs, x ∈ b.space}

end FreeChain

/-- The connection and the variables of `ngx_nsoc_recv_chain`. -/
structure RecvChain (S : Type) where
  w : Endpoint S
  b : FreeBuf
  next : List FreeBuf
  last : Nat
  bytes : Nat

namespace RecvChain

/-- The limit is reached. -/
def Reached (limit : Int) (x : RecvChain S) : Prop := limit ≠ 0 ∧ limit ≤ x.bytes

instance (limit : Int) (x : RecvChain S) : Decidable (x.Reached limit) :=
  inferInstanceAs (Decidable (_ ∧ _))

def size (limit : Int) (x : RecvChain S) : Nat :=
  let size := x.b.stop - x.last
  if limit ≠ 0 ∧ limit < (x.bytes + size : Nat) then (limit - x.bytes).toNat else size

/-- One pass of the loop of `ngx_nsoc_recv_chain`. -/
def recv_chain_body (N : NoiseC S) (fuel : Nat) (limit : Int) (x : RecvChain S) :
    Result (ControlFlow (RecvChain S) (Int × Endpoint S)) :=
  if x.Reached limit then ok (.done (x.bytes, x.w)) else do
  let r ← x.w.recv N fuel x.last (x.size limit)
  if 0 < r.1 then
    let last := x.last + r.1.toNat
    let bytes := x.bytes + r.1.toNat
    if last = x.b.stop then
      match x.next with
      | [] => ok (.done (bytes, r.2))
      | b :: next => ok (.cont ⟨r.2, b, next, b.last, bytes⟩)
    else ok (.cont ⟨r.2, x.b, x.next, last, bytes⟩)
  else if x.bytes ≠ 0 then
    ok (.done (x.bytes, if r.1 = 0 ∨ r.1 = NGX_ERROR then r.2.setReadReady true else r.2))
  else ok (.done r)

/-- The variables on entry. -/
def enter (w : Endpoint S) (cl : FreeChain) : RecvChain S := ⟨w, cl.buf, cl.next, cl.buf.last, 0⟩

end RecvChain

/-- `ngx_nsoc_recv_chain(c, cl, limit)`. -/
def recv_chain (N : NoiseC S) (fuel passes : Nat) (w : Endpoint S) (cl : FreeChain) (limit : Int) :
    Result (Int × Endpoint S) :=
  loop (RecvChain.recv_chain_body N fuel limit) passes (.enter w cl)

end ngx_nsoc
