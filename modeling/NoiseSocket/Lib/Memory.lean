import Mathlib.Data.List.Basic
import Mathlib.Order.Interval.Set.LinearOrder
import Mathlib.Tactic.Common

namespace Exec

/-- Byte-addressed memory that also remembers which ranges were written,
newest first, as pairs of an address and a length. -/
structure Memory where
  byte : Nat → UInt8
  written : List (Nat × Nat)

namespace Memory

/-- The `len` bytes stored from `addr` on. -/
def read (m : Memory) (addr len : Nat) : List UInt8 :=
  (List.range len).map fun i => m.byte (addr + i)

/-- Store `bytes` from `addr` on. -/
def write (m : Memory) (addr : Nat) (bytes : List UInt8) : Memory where
  byte x := if addr ≤ x ∧ x < addr + bytes.length then bytes.getD (x - addr) 0 else m.byte x
  written := (addr, bytes.length) :: m.written

@[simp]
theorem length_read (m : Memory) (addr len : Nat) : (m.read addr len).length = len := by
  simp [read]

@[simp]
theorem read_zero (m : Memory) (addr : Nat) : m.read addr 0 = [] := rfl

theorem getElem?_read (m : Memory) (addr len i : Nat) :
    (m.read addr len)[i]? = if i < len then some (m.byte (addr + i)) else none := by
  by_cases hi : i < len <;> simp [read, hi]

theorem read_add (m : Memory) (addr len more : Nat) :
    m.read addr (len + more) = m.read addr len ++ m.read (addr + len) more := by
  simp [read, List.range_add, Function.comp_def, Nat.add_assoc]

theorem byte_of_getElem?_read {m : Memory} {addr len i : Nat} {x : UInt8}
    (h : (m.read addr len)[i]? = some x) : m.byte (addr + i) = x := by
  rw [getElem?_read] at h
  split_ifs at h
  exact Option.some.inj h

/-- A part of a range. -/
theorem read_part (m : Memory) {addr len skip n : Nat} (h : skip + n ≤ len) :
    m.read (addr + skip) n = ((m.read addr len).drop skip).take n := by
  obtain ⟨more, rfl⟩ := Nat.exists_eq_add_of_le h
  rw [read_add, read_add, List.append_assoc, List.drop_left' (by simp), List.take_left' (by simp)]

/-- Memory that agrees on a range reads the same there. -/
theorem read_congr {m m' : Memory} {addr len : Nat}
    (h : ∀ x, addr ≤ x → x < addr + len → m.byte x = m'.byte x) :
    m.read addr len = m'.read addr len := by
  apply List.map_congr_left
  intro i hi
  rw [List.mem_range] at hi
  exact h _ (by omega) (by omega)

@[simp]
theorem byte_write_nil (m : Memory) (addr x : Nat) : (m.write addr []).byte x = m.byte x := by
  simp [write]

theorem byte_write_of_lt (m : Memory) {addr x : Nat} (bytes : List UInt8) (h : x < addr) :
    (m.write addr bytes).byte x = m.byte x := by
  simp [write, show ¬ addr ≤ x by omega]

theorem byte_write_of_le (m : Memory) {addr x : Nat} (bytes : List UInt8)
    (h : addr + bytes.length ≤ x) : (m.write addr bytes).byte x = m.byte x := by
  simp [write, show ¬ x < addr + bytes.length by omega]

/-- What was just stored reads back. -/
@[simp]
theorem read_write_self (m : Memory) (addr : Nat) (bytes : List UInt8) :
    (m.write addr bytes).read addr bytes.length = bytes := by
  apply List.ext_getElem?
  intro i
  rw [getElem?_read]
  by_cases hi : i < bytes.length
  · simp [hi, write]
  · simp [hi]

/-- A store leaves ranges outside it alone. -/
theorem read_write_of_disjoint (m : Memory) (addr from' len : Nat) (bytes : List UInt8)
    (h : from' + len ≤ addr ∨ addr + bytes.length ≤ from') :
    (m.write addr bytes).read from' len = m.read from' len := by
  apply read_congr
  intro x hlo hhi
  rcases h with h | h
  · exact byte_write_of_lt m bytes (by omega)
  · exact byte_write_of_le m bytes (by omega)

/-- Two adjacent stores read back as one range. -/
theorem read_write_append (m : Memory) (addr : Nat) (front bytes : List UInt8)
    (hfront : m.read addr front.length = front) :
    (m.write (addr + front.length) bytes).read addr (front ++ bytes).length = front ++ bytes := by
  rw [List.length_append, read_add, read_write_self, read_write_of_disjoint _ _ _ _ _ (by omega),
    hfront]

/-- A store in front of a range reads back as one range with it. -/
theorem read_write_front (m : Memory) (addr : Nat) (front bytes : List UInt8)
    (hbytes : m.read (addr + front.length) bytes.length = bytes) :
    (m.write addr front).read addr (front ++ bytes).length = front ++ bytes := by
  rw [List.length_append, read_add, read_write_self, read_write_of_disjoint _ _ _ _ _ (by omega),
    hbytes]

/-- A store over the front of a range leaves the rest of the range. -/
theorem read_write_over (m : Memory) (addr len : Nat) {bytes : List UInt8} (h : bytes.length ≤ len) :
    (m.write addr bytes).read addr len = bytes ++ (m.read addr len).drop bytes.length := by
  obtain ⟨more, rfl⟩ := Nat.exists_eq_add_of_le h
  rw [read_add, read_add, read_write_self, read_write_of_disjoint _ _ _ _ _ (by omega)]
  simp

/-- The front of what was just stored. -/
theorem read_write_prefix (m : Memory) (addr : Nat) (front bytes : List UInt8) :
    (m.write addr (front ++ bytes)).read addr front.length = front := by
  have hall := m.read_write_self addr (front ++ bytes)
  rw [List.length_append, read_add] at hall
  exact (List.append_inj hall (by simp)).1

/-- A part of what was just stored. -/
theorem read_write_part (m : Memory) (addr : Nat) (front bytes : List UInt8) :
    (m.write addr (front ++ bytes)).read (addr + front.length) bytes.length = bytes := by
  have hall := m.read_write_self addr (front ++ bytes)
  rw [List.length_append, read_add] at hall
  exact (List.append_inj hall (by simp)).2

theorem byte_write_of_getElem? (m : Memory) {addr i : Nat} {bytes : List UInt8} {x : UInt8}
    (h : bytes[i]? = some x) : (m.write addr bytes).byte (addr + i) = x := by
  obtain ⟨hi, hx⟩ := List.getElem?_eq_some_iff.mp h
  have hlt : addr + i < addr + bytes.length := by omega
  simp [write, hlt, h]

/-- The addresses written on the way from `m` to `m'`. Nothing else has changed. -/
structure Writes (m m' : Memory) (space : Set Nat) : Prop where
  ranges : ∃ ranges, m'.written = ranges ++ m.written ∧
    ∀ x, x ∈ space ↔ ∃ range ∈ ranges, range.1 ≤ x ∧ x < range.1 + range.2
  bytes : ∀ x, x ∉ space → m'.byte x = m.byte x

theorem Writes.refl (m : Memory) : m.Writes m ∅ := ⟨⟨[], rfl, by simp⟩, fun _ _ => rfl⟩

theorem Writes.trans {m m' m'' : Memory} {space more : Set Nat} (h : m.Writes m' space)
    (h' : m'.Writes m'' more) : m.Writes m'' (space ∪ more) := by
  obtain ⟨ranges, hranges, hspace⟩ := h.ranges
  obtain ⟨ranges', hranges', hmore⟩ := h'.ranges
  refine ⟨⟨ranges' ++ ranges, by rw [hranges', hranges, List.append_assoc], fun x => ?_⟩, fun x hx => ?_⟩
  · rw [Set.mem_union, hspace, hmore]
    simp only [List.mem_append, or_and_right, exists_or]
    exact or_comm
  · rw [Set.mem_union, not_or] at hx
    exact (h'.bytes x hx.2).trans (h.bytes x hx.1)

theorem writes_write (m : Memory) (addr : Nat) (bytes : List UInt8) :
    m.Writes (m.write addr bytes) (Set.Ico addr (addr + bytes.length)) := by
  refine ⟨⟨[(addr, bytes.length)], rfl, by simp⟩, fun x hx => ?_⟩
  rw [Set.mem_Ico, not_and_or] at hx
  obtain hlt | hge := hx
  · exact m.byte_write_of_lt bytes (Nat.lt_of_not_le hlt)
  · exact m.byte_write_of_le bytes (Nat.le_of_not_lt hge)

theorem writes_write_nil (m : Memory) (addr : Nat) : m.Writes (m.write addr []) ∅ := by
  simpa using m.writes_write addr []

/-- The addresses written are told by the log of the two memories. -/
theorem Writes.unique {m m' : Memory} {space other : Set Nat} (h : m.Writes m' space)
    (h' : m.Writes m' other) : space = other := by
  obtain ⟨ranges, hranges, hspace⟩ := h.ranges
  obtain ⟨ranges', hranges', hother⟩ := h'.ranges
  obtain rfl := List.append_cancel_right (hranges.symm.trans hranges')
  ext x
  rw [hspace, hother]

/-- A range that is apart from what was written reads as before. -/
theorem Writes.read {m m' : Memory} {space : Set Nat} {addr len : Nat} (h : m.Writes m' space)
    (hapart : ∀ x ∈ space, x < addr ∨ addr + len ≤ x) : m'.read addr len = m.read addr len := by
  apply read_congr
  intro x hge hlt
  apply h.bytes
  intro hx
  have hout := hapart x hx
  omega

/-- Whatever was written on the way from `m` to `m'` lies in the space that was offered. -/
def WritesWithin (m m' : Memory) (offered : Set Nat) : Prop := ∃ space ⊆ offered, m.Writes m' space

theorem WritesWithin.refl (m : Memory) (offered : Set Nat) : m.WritesWithin m offered :=
  ⟨∅, Set.empty_subset _, .refl m⟩

theorem WritesWithin.trans {m m' m'' : Memory} {offered : Set Nat} (h : m.WritesWithin m' offered)
    (h' : m'.WritesWithin m'' offered) : m.WritesWithin m'' offered := by
  obtain ⟨space, hspace, hwrites⟩ := h
  obtain ⟨more, hmore, hwrites'⟩ := h'
  exact ⟨space ∪ more, Set.union_subset hspace hmore, hwrites.trans hwrites'⟩

theorem WritesWithin.mono {m m' : Memory} {offered wider : Set Nat} (h : m.WritesWithin m' offered)
    (hsub : offered ⊆ wider) : m.WritesWithin m' wider := by
  obtain ⟨space, hspace, hwrites⟩ := h
  exact ⟨space, hspace.trans hsub, hwrites⟩

theorem Writes.within_iff {m m' : Memory} {space offered : Set Nat} (h : m.Writes m' space) :
    m.WritesWithin m' offered ↔ space ⊆ offered := by
  refine ⟨?_, fun hsub => ⟨space, hsub, h⟩⟩
  rintro ⟨other, hsub, hother⟩
  rwa [h.unique hother]

/-- A range that is apart from the space that was offered reads as before. -/
theorem WritesWithin.read {m m' : Memory} {offered : Set Nat} {addr len : Nat}
    (h : m.WritesWithin m' offered) (hapart : ∀ x ∈ offered, x < addr ∨ addr + len ≤ x) :
    m'.read addr len = m.read addr len := by
  obtain ⟨space, hsub, hwrites⟩ := h
  exact hwrites.read fun x hx => hapart x (hsub hx)

theorem within_write (m : Memory) {addr lo hi : Nat} (bytes : List UInt8) (hlo : lo ≤ addr)
    (hhi : addr + bytes.length ≤ hi) : m.WritesWithin (m.write addr bytes) (Set.Ico lo hi) :=
  ⟨_, Set.Ico_subset_Ico hlo hhi, m.writes_write addr bytes⟩

theorem within_write_nil (m : Memory) (addr : Nat) (offered : Set Nat) :
    m.WritesWithin (m.write addr []) offered :=
  ⟨∅, Set.empty_subset _, m.writes_write_nil addr⟩

/-- A range of the log that does not lie in the space offered. -/
theorem not_within_of_written {m m' : Memory} {offered : Set Nat} {ranges : List (Nat × Nat)}
    {range : Nat × Nat} {x : Nat} (hwritten : m'.written = ranges ++ m.written) (hmem : range ∈ ranges)
    (hx : range.1 ≤ x ∧ x < range.1 + range.2) (hout : x ∉ offered) : ¬ m.WritesWithin m' offered := by
  rintro ⟨space, hspace, ⟨other, hother, hall⟩, -⟩
  obtain rfl := List.append_cancel_right (hwritten.symm.trans hother)
  exact hout (hspace ((hall x).mpr ⟨range, hmem, hx⟩))

end Memory

end Exec
