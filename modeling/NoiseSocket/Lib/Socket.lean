import Mathlib.Data.List.Basic
import Mathlib.Tactic.Common

namespace Net

/-- What a non-blocking stream socket has in store for its reader: a segment of
at least one byte, a moment without data, or a failure. -/
inductive Item where
  | data (first : UInt8) (rest : List UInt8)
  | again
  | error
deriving DecidableEq, Repr

/-- The receiving side of a stream socket: what is still to be delivered, and
whether the peer has closed the stream behind it. -/
structure Incoming where
  items : List Item
  closed : Bool
deriving DecidableEq, Repr

/-- The outcome of one read. -/
inductive Answer where
  | data (bytes : List UInt8)
  | eof
  | again
  | error
deriving DecidableEq, Repr

/-- Put the unread part of a segment back in front. -/
def unread : List UInt8 → List Item → List Item
  | [], items => items
  | b :: bs, items => .data b bs :: items

namespace Incoming

/-- Read at most `size` bytes. A segment that is longer stays for the next
read, and two segments are never joined. An exhausted stream answers end of
file for ever once the peer has closed, and has no data otherwise. -/
def recv (s : Incoming) (size : Nat) : Answer × Incoming :=
  match s.items with
  | [] => if s.closed then (.eof, s) else (.again, s)
  | .again :: rest => (.again, { s with items := rest })
  | .error :: rest => (.error, { s with items := rest })
  | .data b bs :: rest =>
    (.data ((b :: bs).take size), { s with items := unread ((b :: bs).drop size) rest })

/-- The bytes in front of the first pause or failure. -/
def arrivedItems : List Item → List UInt8
  | .data b bs :: rest => b :: bs ++ arrivedItems rest
  | _ => []

/-- The bytes that can be read without a pause. -/
def arrived (s : Incoming) : List UInt8 := arrivedItems s.items

/-- The bytes still to be delivered, in order. -/
def bytes (s : Incoming) : List UInt8 :=
  s.items.flatMap fun
    | .data b bs => b :: bs
    | _ => []

end Incoming

@[simp]
theorem unread_nil (items : List Item) : unread [] items = items := rfl

@[simp]
theorem unread_cons (b : UInt8) (bs : List UInt8) (items : List Item) :
    unread (b :: bs) items = .data b bs :: items := rfl

@[simp]
theorem recv_closed (size : Nat) :
    Incoming.recv ⟨[], true⟩ size = (.eof, ⟨[], true⟩) := rfl

@[simp]
theorem recv_open (size : Nat) :
    Incoming.recv ⟨[], false⟩ size = (.again, ⟨[], false⟩) := rfl

@[simp]
theorem recv_again (rest : List Item) (closed : Bool) (size : Nat) :
    Incoming.recv ⟨.again :: rest, closed⟩ size = (.again, ⟨rest, closed⟩) := rfl

@[simp]
theorem recv_error (rest : List Item) (closed : Bool) (size : Nat) :
    Incoming.recv ⟨.error :: rest, closed⟩ size = (.error, ⟨rest, closed⟩) := rfl

theorem recv_data (b : UInt8) (bs : List UInt8) (rest : List Item) (closed : Bool) (size : Nat) :
    Incoming.recv ⟨.data b bs :: rest, closed⟩ size =
      (.data ((b :: bs).take size), ⟨unread ((b :: bs).drop size) rest, closed⟩) := rfl

/-- End of file is answered only when nothing is left, and for ever. -/
theorem rx_of_recv_eof {s s' : Incoming} {size : Nat} (h : s.recv size = (.eof, s')) :
    s' = ⟨[], true⟩ := by
  obtain ⟨items, closed⟩ := s
  cases items with
  | nil => cases closed <;> simp_all
  | cons item rest => cases item <;> simp [recv_data] at h

/-- A read never changes whether the peer has closed. -/
theorem closed_recv (s : Incoming) (size : Nat) : (s.recv size).2.closed = s.closed := by
  obtain ⟨items, closed⟩ := s
  cases items with
  | nil => cases closed <;> rfl
  | cons item rest => cases item <;> rfl

/-- A read of a stream that fails next. -/
theorem recv_of_head_error {s : Incoming} (h : s.items.head? = some .error) (size : Nat) :
    s.recv size = (.error, ⟨s.items.tail, s.closed⟩) := by
  obtain ⟨items, closed⟩ := s
  obtain ⟨rest, rfl⟩ := List.head?_eq_some_iff.mp h
  rfl

theorem head_of_recv_error {s s' : Incoming} {size : Nat} (h : s.recv size = (.error, s')) :
    s.items.head? = some .error := by
  obtain ⟨_ | ⟨⟨b, bs⟩ | _ | _, rest⟩, closed⟩ := s
  · cases closed <;> simp at h
  · simp [recv_data] at h
  · simp at h
  · rfl

theorem bytes_of_head_error {s : Incoming} (h : s.items.head? = some .error) :
    (⟨s.items.tail, s.closed⟩ : Incoming).bytes = s.bytes := by
  obtain ⟨items, closed⟩ := s
  obtain ⟨rest, rfl⟩ := List.head?_eq_some_iff.mp h
  rfl

/-- A read of a positive size that delivers data delivers between one and
`size` bytes. -/
theorem length_of_recv_data {s s' : Incoming} {size : Nat} {got : List UInt8} (hsize : 0 < size)
    (h : s.recv size = (.data got, s')) : 0 < got.length ∧ got.length ≤ size := by
  obtain ⟨items, closed⟩ := s
  cases items with
  | nil => cases closed <;> simp at h
  | cons item rest =>
    cases item with
    | again => simp at h
    | error => simp at h
    | data b bs =>
      simp only [recv_data, Prod.mk.injEq, Answer.data.injEq] at h
      obtain ⟨rfl, -⟩ := h
      simp only [List.length_take, List.length_cons]
      omega

/-- No read delivers more than it was asked for. -/
theorem length_le_of_recv_data {s s' : Incoming} {size : Nat} {got : List UInt8}
    (h : s.recv size = (.data got, s')) : got.length ≤ size := by
  rcases Nat.eq_zero_or_pos size with rfl | hpos
  · obtain ⟨_ | ⟨_ | _ | _, rest⟩, closed⟩ := s
    · cases closed <;> simp at h
    · simp only [recv_data, Prod.mk.injEq, Answer.data.injEq] at h
      simp [← h.1]
    · simp at h
    · simp at h
  · exact (length_of_recv_data hpos h).2

namespace Incoming

/-- A stream that neither closes nor fails. -/
structure Live (s : Incoming) : Prop where
  closed : s.closed = false
  error : .error ∉ s.items

/-- How often the stream will have no data before all of it is delivered. -/
def pauses (s : Incoming) : Nat := s.items.count .again

theorem bytes_unread (bs : List UInt8) (items : List Item) (closed : Bool) :
    bytes ⟨unread bs items, closed⟩ = bs ++ bytes ⟨items, closed⟩ := by
  cases bs with
  | nil => rfl
  | cons b bs => simp [bytes, unread]

theorem pauses_unread (bs : List UInt8) (items : List Item) (closed : Bool) :
    pauses ⟨unread bs items, closed⟩ = pauses ⟨items, closed⟩ := by
  cases bs with
  | nil => rfl
  | cons b bs => simp [pauses, unread]

theorem live_unread {bs : List UInt8} {items : List Item} {closed : Bool}
    (h : Live ⟨items, closed⟩) : Live ⟨unread bs items, closed⟩ := by
  cases bs with
  | nil => exact h
  | cons b bs =>
    refine ⟨h.closed, ?_⟩
    simpa [unread] using h.error

theorem Live.tail {item : Item} {items : List Item} {closed : Bool}
    (h : Live ⟨item :: items, closed⟩) : Live ⟨items, closed⟩ := by
  refine ⟨h.closed, ?_⟩
  intro herror
  exact h.error (List.mem_cons_of_mem _ herror)

/-- A read of a live stream delivers the front of what is left, or there is nothing
right now. -/
theorem Live.recv {s : Incoming} (h : s.Live) {size : Nat} (hsize : 0 < size) :
    (∃ got rx, s.recv size = (.data got, rx) ∧ rx.Live ∧ s.bytes = got ++ rx.bytes ∧
        rx.pauses = s.pauses ∧ 0 < got.length ∧ got.length ≤ size) ∨
      ∃ rx, s.recv size = (.again, rx) ∧ rx.Live ∧ rx.bytes = s.bytes ∧
        (rx.pauses + 1 = s.pauses ∨ rx = s ∧ s.bytes = []) := by
  obtain ⟨items, closed⟩ := s
  cases items with
  | nil =>
    obtain rfl : closed = false := h.closed
    exact .inr ⟨_, recv_open size, h, rfl, .inr ⟨rfl, rfl⟩⟩
  | cons item rest =>
    cases item with
    | again => exact .inr ⟨_, recv_again rest closed size, h.tail, rfl, .inl (by simp [pauses])⟩
    | error => exact absurd List.mem_cons_self h.error
    | data b bs =>
      have hrecv := recv_data b bs rest closed size
      have hlen := length_of_recv_data hsize hrecv
      refine .inl ⟨_, _, hrecv, live_unread h.tail, ?_, ?_, hlen⟩
      · rw [bytes_unread, ← List.append_assoc, List.take_append_drop]
        rfl
      · rw [pauses_unread]
        simp [pauses]

/-- A read takes from the front of the stream what it delivers. -/
theorem bytes_of_recv_data {s s' : Incoming} {size : Nat} {got : List UInt8}
    (h : s.recv size = (.data got, s')) : s.bytes = got ++ s'.bytes := by
  obtain ⟨_ | ⟨_ | _ | _, rest⟩, closed⟩ := s
  · cases closed <;> cases h
  · rw [recv_data] at h
    cases h
    rw [bytes_unread, ← List.append_assoc, List.take_append_drop]
    rfl
  · cases h
  · cases h

theorem bytes_of_recv_none {s s' : Incoming} {size : Nat} {answer : Answer}
    (h : s.recv size = (answer, s')) (hnone : ∀ got, answer ≠ .data got) : s'.bytes = s.bytes := by
  obtain ⟨_ | ⟨_ | _ | _, rest⟩, closed⟩ := s
  · cases closed <;> cases h <;> rfl
  · rw [recv_data] at h
    cases h
    exact absurd rfl (hnone _)
  · cases h
    rfl
  · cases h
    rfl

theorem arrived_unread (bs : List UInt8) (items : List Item) (closed : Bool) :
    arrived ⟨unread bs items, closed⟩ = bs ++ arrived ⟨items, closed⟩ := by
  cases bs with
  | nil => rfl
  | cons b bs => rfl

/-- What has arrived comes first of the bytes that are left. -/
theorem arrived_prefix (s : Incoming) : s.arrived <+: s.bytes := by
  obtain ⟨items, closed⟩ := s
  induction items with
  | nil => exact List.prefix_rfl
  | cons item rest ih =>
    cases item with
    | data b bs => exact (List.prefix_append_right_inj (b :: bs)).mpr ih
    | again => exact List.nil_prefix
    | error => exact List.nil_prefix

/-- A read takes what it delivers from the front of what has arrived. -/
theorem arrived_of_recv_data {s rx : Incoming} {size : Nat} {got : List UInt8}
    (h : s.recv size = (.data got, rx)) : s.arrived = got ++ rx.arrived := by
  obtain ⟨_ | ⟨⟨b, bs⟩ | _ | _, rest⟩, closed⟩ := s
  · cases closed <;> simp at h
  · simp only [recv_data, Prod.mk.injEq, Answer.data.injEq] at h
    obtain ⟨rfl, rfl⟩ := h
    rw [arrived_unread, ← List.append_assoc, List.take_append_drop]
    rfl
  · simp at h
  · simp at h

/-- A read has no data where nothing has arrived. -/
theorem arrived_of_recv_none {s rx : Incoming} {size : Nat} {answer : Answer}
    (h : s.recv size = (answer, rx)) (hnone : ∀ got, answer ≠ .data got) : s.arrived = [] := by
  obtain ⟨_ | ⟨⟨b, bs⟩ | _ | _, rest⟩, closed⟩ := s
  · rfl
  · simp only [recv_data, Prod.mk.injEq] at h
    exact absurd h.1.symm (hnone _)
  · rfl
  · rfl

end Incoming

end Net
