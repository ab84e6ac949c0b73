import Mathlib.Data.List.Infix
import NoiseSocket.Prologue.Servers

open Exec Exec.Result

namespace ngx_nsoc

variable {S : Type}

/-- The start of a handshake message of a client, as far as the socket took it: the header of the
first message, or the header of another one. -/
structure Opening (bytes : List UInt8) : Prop where
  first : bytes[0]? = some 0
  second : ∀ b, bytes[1]? = some b → b ≠ 1
  header : bytes[1]? = some 6 → bytes.take 8 <+: proxy_prologue.headerBytes

theorem Opening.of_front {bytes part : List UInt8} (h : Opening bytes) (hpart : part <+: bytes)
    (hne : part ≠ []) : Opening part := by
  have hget : ∀ {i : Nat} {b : UInt8}, part[i]? = some b → bytes[i]? = some b := by
    intro i b hb
    obtain ⟨rest, rfl⟩ := hpart
    exact List.getElem?_append_left (List.getElem?_eq_some_iff.mp hb).1 ▸ hb
  refine ⟨?_, fun b hb => h.second b (hget hb), fun hb => ?_⟩
  · obtain ⟨b, rest, rfl⟩ := List.exists_cons_of_ne_nil hne
    have hfirst : bytes[0]? = some b := hget rfl
    rw [h.first] at hfirst
    simpa using hfirst.symm
  · exact (hpart.take 8).trans (h.header (hget hb))

/-- What a client sends consists of the starts of messages. -/
def Openings (bytes : List UInt8) : Prop :=
  ∃ parts : List (List UInt8), bytes = parts.flatten ∧ ∀ part ∈ parts, Opening part

theorem Openings.append {bytes part : List UInt8} (h : Openings bytes)
    (hpart : part = [] ∨ Opening part) : Openings (bytes ++ part) := by
  obtain ⟨parts, rfl, hparts⟩ := h
  cases hpart with
  | inl hnil => exact ⟨parts, by simp [hnil], hparts⟩
  | inr hopening =>
    refine ⟨parts ++ [part], by simp, fun x hx => ?_⟩
    cases List.mem_append.mp hx with
    | inl hx => exact hparts x hx
    | inr hx => rwa [List.mem_singleton.mp hx]

theorem Openings.first {bytes : List UInt8} (h : Openings bytes) {b : UInt8}
    (hb : bytes[0]? = some b) : b = 0 := by
  obtain ⟨_ | ⟨part, parts⟩, rfl, hparts⟩ := h
  · cases hb
  · have hpart := (hparts part List.mem_cons_self).first
    have hlt := (List.getElem?_eq_some_iff.mp hpart).1
    rw [List.flatten_cons, List.getElem?_append_left hlt, hpart] at hb
    simpa using hb.symm

theorem Openings.second {bytes : List UInt8} (h : Openings bytes) {b : UInt8}
    (hb : bytes[1]? = some b) : b ≠ 1 := by
  obtain ⟨_ | ⟨part, parts⟩, rfl, hparts⟩ := h
  · cases hb
  · have hpart := hparts part List.mem_cons_self
    have hrest : Openings parts.flatten := ⟨parts, rfl, fun x hx => hparts x (List.mem_cons_of_mem _ hx)⟩
    have hlt := (List.getElem?_eq_some_iff.mp hpart.first).1
    rw [List.flatten_cons] at hb
    by_cases hlong : 1 < part.length
    · rw [List.getElem?_append_left hlong] at hb
      exact hpart.second b hb
    · obtain ⟨a, rfl⟩ := List.length_eq_one_iff.mp (show part.length = 1 by omega)
      rw [hrest.first hb]
      decide

/-- What stands behind the first part. -/
theorem Openings.eq_append {bytes : List UInt8} (h : Openings bytes) (hne : bytes ≠ []) :
    ∃ part rest, bytes = part ++ rest ∧ Opening part ∧ Openings rest := by
  obtain ⟨_ | ⟨part, parts⟩, rfl, hparts⟩ := h
  · exact absurd rfl hne
  · exact ⟨part, parts.flatten, List.flatten_cons, hparts part List.mem_cons_self,
      parts, rfl, fun x hx => hparts x (List.mem_cons_of_mem _ hx)⟩

/-- A header of this version that names no empty id, found where the first header of a client
belongs, is the one the client has sent: wherever the socket has cut a message short, a zero or
the length of another header follows. -/
theorem Openings.header_eq {bytes : List UInt8} (h : Openings bytes) {dh cipher hash pattern : UInt8}
    (hfront : [0, 6, 0, 1, dh, cipher, hash, pattern] <+: bytes) (hdh : dh ≠ 0)
    (hcipher : cipher ≠ 0) (hhash : hash ≠ 0) (hpattern : pattern ≠ 0) :
    [0, 6, 0, 1, dh, cipher, hash, pattern] = proxy_prologue.headerBytes := by
  have hne : bytes ≠ [] := by
    rintro rfl
    exact absurd hfront.length_le (by simp)
  obtain ⟨part, rest, rfl, hpart, hrest⟩ := h.eq_append hne
  obtain ⟨tail, htail⟩ := hfront
  have hfirst := fun b => hrest.first (b := b)
  have hsecond := fun b => hrest.second (b := b)
  match part, hpart, htail with
  | [], hpart, _ => cases hpart.first
  | [_], _, htail =>
    simp only [List.cons_append, List.nil_append, List.cons.injEq] at htail
    rw [← htail.2] at hfirst
    exact absurd (hfirst 6 rfl) (by decide)
  | [_, _], _, htail =>
    simp only [List.cons_append, List.nil_append, List.cons.injEq] at htail
    rw [← htail.2.2] at hsecond
    exact absurd rfl (hsecond 1 rfl)
  | [_, _, _], _, htail =>
    simp only [List.cons_append, List.nil_append, List.cons.injEq] at htail
    rw [← htail.2.2.2] at hfirst
    exact absurd (hfirst 1 rfl) (by decide)
  | [_, _, _, _], _, htail =>
    simp only [List.cons_append, List.nil_append, List.cons.injEq] at htail
    rw [← htail.2.2.2.2] at hfirst
    exact absurd (hfirst dh rfl) hdh
  | [_, _, _, _, _], _, htail =>
    simp only [List.cons_append, List.nil_append, List.cons.injEq] at htail
    rw [← htail.2.2.2.2.2] at hfirst
    exact absurd (hfirst cipher rfl) hcipher
  | [_, _, _, _, _, _], _, htail =>
    simp only [List.cons_append, List.nil_append, List.cons.injEq] at htail
    rw [← htail.2.2.2.2.2.2] at hfirst
    exact absurd (hfirst hash rfl) hhash
  | [_, _, _, _, _, _, _], _, htail =>
    simp only [List.cons_append, List.nil_append, List.cons.injEq] at htail
    rw [← htail.2.2.2.2.2.2.2] at hfirst
    exact absurd (hfirst pattern rfl) hpattern
  | _ :: x :: _ :: _ :: _ :: _ :: _ :: _ :: _, hpart, htail =>
    simp only [List.cons_append, List.nil_append, List.cons.injEq] at htail
    obtain ⟨rfl, rfl, rfl, rfl, rfl, rfl, rfl, rfl, -⟩ := htail
    exact (hpart.header rfl).eq_of_length rfl

namespace Endpoint

/-- Every message begins with a header, of the prologue or of a later message. -/
theorem opening_of_message_header {w : Endpoint S} (hw : w.prologue = proxy_prologue)
    {header : List UInt8} {next : Nat} (hheader : w.message_header = some (header, next))
    (rest : List UInt8) : Opening (header ++ rest) := by
  simp only [message_header, hw] at hheader
  split_ifs at hheader
  · cases hheader
    exact ⟨rfl, by rintro b ⟨⟩; decide, fun _ => List.prefix_rfl⟩
  all_goals
    cases hheader
    exact ⟨rfl, by rintro b ⟨⟩; decide, fun hsix => absurd (Option.some.inj hsix) (by decide)⟩

theorem opening_err_message : Opening err_message :=
  ⟨rfl, by rintro b ⟨⟩; decide, fun hsix => absurd (Option.some.inj hsix) (by decide)⟩

/-- What a client writes into its buffer begins with a header. -/
theorem opening_of_write {N : NoiseC S} {w v : Endpoint S} {b : Buf}
    (hw : w.prologue = proxy_prologue)
    (h : w.handshake_start_action_write_message N = ok (NGX_OK, some b, v)) :
    b.pos = 0 ∧ Opening b.bytes := by
  cases (write_message_cases h).2 with
  | refused hn => cases hn
  | error_message _ _ hb =>
    cases hb
    exact ⟨rfl, opening_err_message⟩
  | noise_error code hn hcode => exact absurd (Int.ofNat_inj.mp hn).symm hcode
  | written header message next _ hheader _ hb =>
    cases hb
    refine ⟨rfl, ?_⟩
    rw [List.append_assoc]
    exact opening_of_message_header hw hheader _

/-- The socket takes the start of what it is offered. -/
theorem tx_ngx_send (w : Endpoint S) (bytes : List UInt8) :
    ∃ part, part <+: bytes ∧ (w.ngx_send bytes).2.env.tx = w.env.tx ++ part := by
  unfold ngx_send
  split
  · exact ⟨bytes, List.prefix_rfl, rfl⟩
  · exact ⟨_, List.take_prefix _ _, rfl⟩
  · exact ⟨[], List.nil_prefix, (List.append_nil _).symm⟩
  · exact ⟨[], List.nil_prefix, (List.append_nil _).symm⟩

theorem tx_write_again (w : Endpoint S) (b : Buf) : (w.write_again b).2.env.tx = w.env.tx := by
  unfold write_again
  dsimp only
  split_ifs <;> rfl

theorem tx_send_action (N : NoiseC S) (b : Buf) (w : Endpoint S) :
    ∃ part, part <+: b.bytes.drop b.pos ∧
      (flowState (w.send_action N b)).env.tx = w.env.tx ++ part := by
  obtain ⟨part, hpart, htx⟩ := (w.setLast 0).tx_ngx_send (b.bytes.drop b.pos)
  refine ⟨part, hpart, ?_⟩
  rw [show w.env.tx = (w.setLast 0).env.tx from rfl, ← htx]
  unfold send_action
  dsimp only
  split_ifs
  · exact tx_write_again _ _
  · rfl
  · rfl
  · rfl

end Endpoint

end ngx_nsoc
