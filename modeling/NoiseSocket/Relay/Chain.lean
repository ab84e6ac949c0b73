import NoiseSocket.Handler.State

open Exec

namespace ngx_nsoc

/-- An `ngx_buf_t` of a chain, by addresses: in the buffer of the relay or, with `preread`, in
the buffer of the preread phase. -/
structure ChainBuf where
  preread : Bool
  start : Nat
  pos : Nat
  last : Nat
  stop : Nat
  temporary : Bool
  last_buf : Bool
  flush : Bool
deriving DecidableEq, Repr

namespace ChainBuf

def ngx_buf_size (b : ChainBuf) : Nat := if b.temporary then b.last - b.pos else 0

def ngx_buf_special (b : ChainBuf) : Bool := (b.flush || b.last_buf) && !b.temporary

end ChainBuf

/-- The two blocks of memory that the links of a chain point into. -/
structure Heap where
  relay : Memory
  preread : Memory

/-- The buffers of the links that were made so far, by number. -/
structure Links where
  buf : Nat → ChainBuf
  made : Nat

namespace Heap

/-- The block that a buffer lies in. -/
def block (h : Heap) (b : ChainBuf) : Memory := if b.preread then h.preread else h.relay

def setBlock (h : Heap) (b : ChainBuf) (mem : Memory) : Heap :=
  if b.preread then { h with preread := mem } else { h with relay := mem }

/-- The bytes from `pos` to `last`. -/
def region (h : Heap) (b : ChainBuf) : List UInt8 := (h.block b).read b.pos b.ngx_buf_size

end Heap

namespace Links

def set (l : Links) (i : Nat) (b : ChainBuf) : Links :=
  { l with buf := fun j => if j = i then b else l.buf j }

/-- The unsent bytes of a chain. -/
def contents (l : Links) (h : Heap) (chain : List Nat) : List UInt8 :=
  chain.flatMap fun i => h.region (l.buf i)

/-- The number of unsent bytes of a chain. -/
def size (l : Links) (chain : List Nat) : Nat := (chain.map fun i => (l.buf i).ngx_buf_size).sum

/-- A link of its own for `b`: its number, and the links with it. -/
def make (l : Links) (b : ChainBuf) : Nat × Links := (l.made, { l.set l.made b with made := l.made + 1 })

@[simp]
theorem buf_set_self (l : Links) (i : Nat) (b : ChainBuf) : (l.set i b).buf i = b := by
  simp [set]

theorem buf_set_of_ne (l : Links) {i j : Nat} (b : ChainBuf) (h : j ≠ i) :
    (l.set i b).buf j = l.buf j := by
  simp [set, h]

@[simp]
theorem buf_make_self (l : Links) (b : ChainBuf) : (l.make b).2.buf l.made = b := by
  simp [make, set]

theorem buf_make_of_lt (l : Links) {i : Nat} (b : ChainBuf) (h : i < l.made) :
    (l.make b).2.buf i = l.buf i := by
  simp [make, set, Nat.ne_of_lt h]

@[simp]
theorem made_make (l : Links) (b : ChainBuf) : (l.make b).2.made = l.made + 1 := rfl

@[simp]
theorem fst_make (l : Links) (b : ChainBuf) : (l.make b).1 = l.made := rfl

@[simp]
theorem contents_nil (l : Links) (h : Heap) : l.contents h [] = [] := rfl

@[simp]
theorem contents_cons (l : Links) (h : Heap) (i : Nat) (chain : List Nat) :
    l.contents h (i :: chain) = h.region (l.buf i) ++ l.contents h chain := rfl

@[simp]
theorem contents_append (l : Links) (h : Heap) (chain chain' : List Nat) :
    l.contents h (chain ++ chain') = l.contents h chain ++ l.contents h chain' := by
  simp [contents]

/-- The links of `l'` are those of `l` but for their positions. -/
structure Moved (l l' : Links) : Prop where
  made : l'.made = l.made
  buf : ∀ i, ∃ pos, l'.buf i = { l.buf i with pos }

theorem Moved.refl (l : Links) : Moved l l := ⟨rfl, fun i => ⟨(l.buf i).pos, rfl⟩⟩

theorem Moved.trans {l l' l'' : Links} (h : Moved l l') (h' : Moved l' l'') : Moved l l'' := by
  refine ⟨h'.made.trans h.made, fun i => ?_⟩
  obtain ⟨pos, hbuf⟩ := h.buf i
  obtain ⟨pos', hbuf'⟩ := h'.buf i
  exact ⟨pos', by rw [hbuf', hbuf]⟩

theorem moved_set (l : Links) (i pos : Nat) : Moved l (l.set i { l.buf i with pos }) := by
  refine ⟨rfl, fun j => ?_⟩
  by_cases hj : j = i
  · subst hj
    exact ⟨pos, buf_set_self l j _⟩
  · exact ⟨(l.buf j).pos, buf_set_of_ne l _ hj⟩

/-- The position of a link is set again. -/
theorem Moved.set_again {l : Links} {i : Nat} {b : ChainBuf} (h : Moved l (l.set i b)) (pos : Nat) :
    Moved l ((l.set i b).set i { b with pos }) := by
  refine ⟨rfl, fun j => ?_⟩
  obtain ⟨at_j, hbuf⟩ := h.buf j
  by_cases hj : j = i
  · subst hj
    rw [buf_set_self] at hbuf
    exact ⟨pos, by rw [buf_set_self, hbuf]⟩
  · exact ⟨at_j, by rw [buf_set_of_ne _ _ hj, hbuf]⟩

end Links

end ngx_nsoc
