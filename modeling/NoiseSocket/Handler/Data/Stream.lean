import NoiseSocket.Handler.Data
import NoiseSocket.Handler.Message.Readers

open Exec Exec.Result

namespace ngx_nsoc

variable {S : Type}

/-- The byte of a length that has come in. -/
def SizeField.held : SizeField → List UInt8
  | .first b0 => [b0]
  | _ => []

theorem second_byte_live (b0 : UInt8) (saved : SizeField) {rx : Net.Incoming} (h : rx.Live) :
    (∃ b1 rx', second_byte b0 saved rx = (.got (be16 b0 b1), rx') ∧ rx'.Live ∧
        rx.bytes = b1 :: rx'.bytes ∧ rx'.pauses = rx.pauses) ∨
      ∃ rx', second_byte b0 saved rx = (.again (.first b0), rx') ∧ rx'.Live ∧
        rx'.bytes = rx.bytes ∧ (rx'.pauses + 1 = rx.pauses ∨ rx.bytes = []) := by
  obtain ⟨items, closed⟩ := rx
  cases items with
  | nil =>
    obtain rfl : closed = false := h.closed
    exact .inr ⟨_, rfl, h, rfl, .inr rfl⟩
  | cons item rest =>
    cases item with
    | again => exact .inr ⟨_, rfl, h.tail, rfl, .inl (by simp [Net.Incoming.pauses])⟩
    | error => exact absurd List.mem_cons_self h.error
    | data b1 bs =>
      refine .inl ⟨b1, _, rfl, Net.Incoming.live_unread h.tail, ?_, ?_⟩
      · rw [Net.Incoming.bytes_unread]
        rfl
      · rw [Net.Incoming.pauses_unread]
        simp [Net.Incoming.pauses]

theorem both_bytes_live {rx : Net.Incoming} (h : rx.Live) :
    (∃ b0 b1 rx', both_bytes rx = (.got (be16 b0 b1), rx') ∧ rx'.Live ∧
        rx.bytes = b0 :: b1 :: rx'.bytes ∧ rx'.pauses = rx.pauses) ∨
      ∃ saved rx', both_bytes rx = (.again saved, rx') ∧ saved.incomplete ∧ rx'.Live ∧
        saved.held ++ rx'.bytes = rx.bytes ∧
        (rx'.pauses + 1 = rx.pauses ∨ rx'.bytes = []) := by
  obtain ⟨items, closed⟩ := rx
  cases items with
  | nil =>
    obtain rfl : closed = false := h.closed
    exact .inr ⟨_, _, rfl, rfl, h, rfl, .inr rfl⟩
  | cons item rest =>
    cases item with
    | again => exact .inr ⟨_, _, rfl, rfl, h.tail, rfl, .inl (by simp [Net.Incoming.pauses])⟩
    | error => exact absurd List.mem_cons_self h.error
    | data b0 bs =>
      cases bs with
      | cons b1 bs =>
        refine .inl ⟨b0, b1, _, rfl, Net.Incoming.live_unread h.tail, ?_, ?_⟩
        · rw [Net.Incoming.bytes_unread]
          rfl
        · rw [Net.Incoming.pauses_unread]
          simp [Net.Incoming.pauses]
      | nil =>
        have hpauses : Net.Incoming.pauses ⟨.data b0 [] :: rest, closed⟩ =
            Net.Incoming.pauses ⟨rest, closed⟩ := by simp [Net.Incoming.pauses]
        obtain ⟨b1, rx', heq, hlive, hbytes, hsame⟩ | ⟨rx', heq, hlive, hbytes, hless⟩ :=
          second_byte_live b0 .unset h.tail
        · exact .inl ⟨b0, b1, rx', heq, hlive, congrArg (b0 :: ·) hbytes, hsame.trans hpauses.symm⟩
        · refine .inr ⟨_, rx', heq, rfl, hlive, congrArg (b0 :: ·) hbytes, ?_⟩
          rw [hpauses]
          exact hless.imp_right fun hnil => hbytes.trans hnil

/-- The length readers on a live stream: both bytes of the length, of which one may
have been held, or a pause that loses nothing. -/
theorem take_len_live {size : SizeField} (hsize : size.incomplete) {rx : Net.Incoming}
    (h : rx.Live) :
    (∃ b0 b1 rx', take_len size rx = (.got (be16 b0 b1), rx') ∧ rx'.Live ∧
        size.held ++ rx.bytes = b0 :: b1 :: rx'.bytes ∧ rx'.pauses = rx.pauses) ∨
      ∃ saved rx', take_len size rx = (.again saved, rx') ∧ saved.incomplete ∧ rx'.Live ∧
        saved.held ++ rx'.bytes = size.held ++ rx.bytes ∧
        (rx'.pauses + 1 = rx.pauses ∨ rx'.bytes = []) := by
  cases size with
  | known size => simp [SizeField.incomplete] at hsize
  | unset => simpa [take_len, SizeField.held] using both_bytes_live h
  | first b0 =>
    obtain ⟨b1, rx', heq, hlive, hbytes, hsame⟩ | ⟨rx', heq, hlive, hbytes, hless⟩ :=
      second_byte_live b0 (.known b0.toNat) h
    · exact .inl ⟨b0, b1, rx', heq, hlive, congrArg (b0 :: ·) hbytes, hsame⟩
    · exact .inr ⟨_, rx', heq, rfl, hlive, congrArg (b0 :: ·) hbytes,
        hless.imp_right fun hnil => hbytes.trans hnil⟩

/-- The value of the two bytes of a length that fits. -/
theorem be16_lenBytes {n : Nat} (h : n < 65536) :
    be16 (UInt8.ofNat (n / 256)) (UInt8.ofNat n) = n := by
  simp only [be16, UInt8.toNat_ofNat']
  omega

theorem Endpoint.lenBytes_inj {n m : Nat} (hn : n < 65536) (hm : m < 65536) (h : lenBytes n = lenBytes m) :
    n = m := by
  simp only [lenBytes, List.cons.injEq, and_true] at h
  rw [← be16_lenBytes hn, ← be16_lenBytes hm, h.1, h.2]

end ngx_nsoc
