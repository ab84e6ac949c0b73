import NoiseSocket.Handler.InStep

open Exec Exec.Result

namespace ngx_nsoc

namespace Position

section

variable {place : Position} {f : LenField} {held bytes more : List UInt8}

theorem behind_append (place : Position) (bytes more : List UInt8) :
    place.behind (bytes ++ more) = (place.behind bytes).behind more := by
  induction bytes generalizing place with
  | nil => rfl
  | cons b bytes ih => exact ih _

theorem layout_append (place : Position) (bytes more : List UInt8) :
    place.layout (bytes ++ more) = place.layout bytes ++ (place.behind bytes).layout more := by
  induction bytes generalizing place with
  | nil => rfl
  | cons b bytes ih => exact congrArg (_ :: ·) (ih _)

theorem map_snd_layout (place : Position) (bytes : List UInt8) : (place.layout bytes).map Prod.snd = bytes := by
  induction bytes generalizing place with
  | nil => rfl
  | cons b bytes ih => exact congrArg (b :: ·) (ih _)

/-- What has come in so far is laid out as the beginning of everything. -/
theorem layout_prefix (place : Position) (h : bytes <+: more) : place.layout bytes <+: place.layout more := by
  obtain ⟨rest, rfl⟩ := h
  rw [layout_append]
  exact List.prefix_append _ _

/-- A part of a length. -/
theorem layout_held (h : (held ++ bytes).length ≤ 1) :
    (len f held).layout bytes = bytes.map (f.part, ·) ∧ (len f held).behind bytes = .len f (held ++ bytes) := by
  cases bytes with
  | nil =>
    rw [List.append_nil]
    exact ⟨rfl, rfl⟩
  | cons b bytes =>
    simp only [List.length_append, List.length_cons] at h
    obtain rfl := List.eq_nil_of_length_eq_zero (show held.length = 0 by omega)
    obtain rfl := List.eq_nil_of_length_eq_zero (show bytes.length = 0 by omega)
    exact ⟨rfl, rfl⟩

/-- The rest of a length. -/
theorem layout_len {b0 b1 : UInt8} (hheld : held.length ≤ 1) (h : held ++ bytes = [b0, b1]) :
    (len f held).layout bytes = bytes.map (f.part, ·) ∧
      (len f held).behind bytes = behind_len f (be16 b0 b1) := by
  cases held with
  | nil =>
    obtain rfl : bytes = [b0, b1] := h
    exact ⟨rfl, rfl⟩
  | cons b held =>
    simp only [List.length_cons] at hheld
    obtain rfl := List.eq_nil_of_length_eq_zero (show held.length = 0 by omega)
    obtain ⟨rfl, rfl⟩ : b = b0 ∧ bytes = [b1] := by simpa using h
    exact ⟨rfl, rfl⟩

/-- The data behind a length, or a part of them. -/
theorem layout_data {size left : Nat} (hpos : 0 < left) (h : bytes.length ≤ left) :
    (data f size left).layout bytes = bytes.map (f.data size, ·) ∧ (data f size left).behind bytes =
      if bytes.length = left then .len f.other [] else .data f size (left - bytes.length) := by
  induction bytes generalizing left with
  | nil => exact ⟨rfl, by rw [if_neg (by simp; omega)]; rfl⟩
  | cons b bytes ih =>
    simp only [List.length_cons] at h ⊢
    by_cases hone : left ≤ 1
    · obtain rfl : left = 1 := by omega
      obtain rfl : bytes = [] := List.eq_nil_of_length_eq_zero (by omega)
      exact ⟨rfl, rfl⟩
    · obtain ⟨hlayout, hbehind⟩ := ih (by omega : 0 < left - 1) (by omega)
      have hnext : (data f size left).next b = (f.data size, .data f size (left - 1)) := by
        rw [next, if_neg hone]
      refine ⟨?_, ?_⟩
      · rw [layout, hnext]
        exact congrArg (_ :: ·) hlayout
      · rw [behind, hnext]
        refine hbehind.trans ?_
        by_cases hall : bytes.length + 1 = left
        · rw [if_pos hall, if_pos (by omega)]
        · rw [if_neg hall, if_neg (by omega), Nat.sub_sub, Nat.add_comm 1]

end

end Position

section

variable {f : LenField} {bytes : List UInt8}

theorem map_snd_map (part : Part) (bytes : List UInt8) : (bytes.map (part, ·)).map Prod.snd = bytes := by
  rw [List.map_map]
  exact List.map_id bytes

theorem map_snd_field (f : LenField) (bytes : List UInt8) :
    (field f bytes).map Prod.snd = Endpoint.lenBytes bytes.length ++ bytes := by
  rw [field, List.map_append, map_snd_map, map_snd_map]

/-- A field is read as it was written. -/
theorem layout_field (f : LenField) (h : bytes.length < 65536) :
    (Position.len f []).layout ((field f bytes).map Prod.snd) = field f bytes ∧
      (Position.len f []).behind ((field f bytes).map Prod.snd) = .len f.other [] := by
  have hbytes : [] ++ Endpoint.lenBytes bytes.length =
      [UInt8.ofNat (bytes.length / 256), UInt8.ofNat bytes.length] := rfl
  obtain ⟨hlen, hbehind⟩ := Position.layout_len (f := f) (by simp) hbytes
  rw [be16_lenBytes h] at hbehind
  rw [map_snd_field, Position.layout_append, Position.behind_append, hlen, hbehind]
  rcases Nat.eq_zero_or_pos bytes.length with hzero | hpos
  · obtain rfl := List.eq_nil_of_length_eq_zero hzero
    exact ⟨rfl, rfl⟩
  · rw [Position.behind_len, if_neg (by omega)]
    obtain ⟨hdata, hend⟩ := @Position.layout_data f bytes bytes.length bytes.length hpos le_rfl
    rw [hdata, hend, if_pos rfl]
    exact ⟨rfl, rfl⟩

theorem length_neg_bytes (k : Nat) : (neg_bytes k).length ≤ 6 := by
  unfold neg_bytes
  split_ifs
  · decide
  · exact Nat.zero_le 6

/-- Whole messages are read as they were written, and the next one begins behind them. -/
theorem layout_said {role : Role} {k : Nat} {messages : List (List UInt8)}
    (h : ∀ message ∈ messages, message.length < 65536) :
    Position.first.layout ((said role k messages).map Prod.snd) = said role k messages ∧
      Position.first.behind ((said role k messages).map Prod.snd) = Position.first := by
  induction messages generalizing k with
  | nil => exact ⟨rfl, rfl⟩
  | cons message messages ih =>
    have hrest := @ih (k + 1) fun message hmem => h message (List.mem_cons_of_mem _ hmem)
    rw [said, List.map_append, Position.layout_append, Position.behind_append]
    split_ifs
    · have hneg := layout_field .neg_data ((length_neg_bytes k).trans_lt (by decide))
      have hnoise := layout_field .noise_msg (h message List.mem_cons_self)
      have hplace : Position.first = .len .neg_data [] := rfl
      rw [List.map_append, Position.layout_append, Position.behind_append, hplace, hneg.1, hneg.2]
      simp only [LenField.other]
      rw [hnoise.1, hnoise.2]
      simp only [LenField.other]
      rw [← hplace, hrest.1, hrest.2]
      exact ⟨rfl, rfl⟩
    · exact ⟨congrArg ([] ++ ·) hrest.1, hrest.2⟩

theorem said_append (role : Role) (k : Nat) (messages more : List (List UInt8)) :
    said role k (messages ++ more) = said role k messages ++ said role (k + messages.length) more := by
  induction messages generalizing k with
  | nil => rfl
  | cons first messages ih =>
    rw [List.cons_append, said, said, ih, List.append_assoc, List.length_cons, Nat.add_right_comm, Nat.add_assoc]

/-- The first message of a client begins with the header. -/
theorem headerBytes_first (message : List UInt8) (messages : List (List UInt8)) :
    proxy_prologue.headerBytes <+: (said .client 0 (message :: messages)).map Prod.snd := by
  have hwriter : writer 0 = .client := rfl
  rw [said, if_pos hwriter, List.map_append, List.map_append, map_snd_field, List.append_assoc]
  exact List.prefix_append _ _

theorem header_of_said {front : List UInt8} {messages : List (List UInt8)}
    (h : front <+: (said .client 0 messages).map Prod.snd) (hsize : front.length = 8) :
    front = proxy_prologue.headerBytes := by
  cases messages with
  | nil =>
    obtain rfl := List.prefix_nil.mp h
    cases hsize
  | cons message messages =>
    have hlen : front.length = proxy_prologue.headerBytes.length := hsize
    exact (List.prefix_of_prefix_length_le h (headerBytes_first message messages) hlen.le).eq_of_length hlen

/-- What has come in in order has been read for what it is in the stream. -/
theorem taken_of_inOrder {trace : List Obs} (h : InOrder trace) :
    taken trace = Position.first.layout (received trace) := by
  induction trace with
  | nil => rfl
  | cons o trace ih =>
    rw [taken_cons, received_cons, Position.layout_append, ih h.2]
    cases o with
    | recv part size n bytes => exact congrArg (_ ++ ·) h.1.symm
    | negotiation | set_prologue | set_keypair_private | set_public_key | write_message | read_message => rfl

end

end ngx_nsoc
