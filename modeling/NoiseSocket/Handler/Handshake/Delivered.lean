import NoiseSocket.Handler.Handshake.Taken

open Exec Exec.Result

namespace ngx_nsoc

variable {S : Type}

/-- What has come in ends with the two bytes of a length, and behind them with `message`, which is as
long as they say. -/
def Announced (stream : List (Part × UInt8)) (message : List UInt8) : Prop :=
  ∃ earlier b0 b1, message.length = be16 b0 b1 ∧
    stream = earlier ++ [(.msg_len, b0), (.msg_len, b1)] ++
      message.map (.msg_data message.length, ·)

/-- Every message that noise-c was given is what had come in behind its length. -/
def AllAnnounced : List Obs → Prop
  | [] => True
  | .read_message message _ :: trace => Announced (taken trace) message ∧ AllAnnounced trace
  | _ :: trace => AllAnnounced trace

theorem allAnnounced_append {obs trace : List Obs} (hobs : ∀ o ∈ obs, ∀ message code,
    o ≠ .read_message message code) : AllAnnounced (obs ++ trace) ↔ AllAnnounced trace := by
  induction obs with
  | nil => rfl
  | cons o obs ih =>
    have hrest := ih fun o' ho' => hobs o' (List.mem_cons_of_mem _ ho')
    cases o with
    | read_message message code => exact absurd rfl (hobs _ List.mem_cons_self message code)
    | _ => exact hrest

/-- The length of a noise message, once it is there, and the stream behind it. A byte that the end of
the stream follows is taken for the length. -/
def noise_len : SizeField → Net.Incoming → Option (Nat × Net.Incoming)
  | .known len, rx => some (len, rx)
  | size, rx =>
    match take_len size rx with
    | (.got len, rest) => some (len, rest)
    | (.closed (.known len), rest) => some (len, rest)
    | _ => none

/-- The noise message has a length, and one read delivers all of it or nothing; `excused` says when
only a part may come. -/
def Undivided (excused : Prop) (size : SizeField) (rx : Net.Incoming) : Prop :=
  ∀ len rest, noise_len size rx = some (len, rest) → len ≠ 0 ∧
    ∀ got rest', rest.recv len = (.data got, rest') → got.length = len ∨ excused

theorem noise_len_of_taken {size : SizeField} {rx : Net.Incoming} {len : Nat}
    (hsize : size.incomplete) (hcode : (take_len size rx).1.code = NGX_OK)
    (hknown : (take_len size rx).1.size = .known len) :
    noise_len size rx = some (len, (take_len size rx).2) := by
  have htaken : noise_len size rx = match take_len size rx with
      | (.got len, rest) => some (len, rest)
      | (.closed (.known len), rest) => some (len, rest)
      | _ => none := by
    cases size with
    | known => cases hsize
    | unset | first => rfl
  rw [htaken]
  generalize take_len size rx = taken at hcode hknown
  obtain ⟨answer, rest⟩ := taken
  cases answer with
  | got =>
    cases hknown
    rfl
  | closed saved =>
    obtain rfl : saved = .known len := hknown
    rfl
  | again | error => cases hcode

/-- Behind the length the noise message is as it was in front of it. -/
theorem Undivided.behind {excused : Prop} {size : SizeField} {rx : Net.Incoming}
    (h : Undivided excused size rx) (hsize : size.incomplete)
    (hcode : (take_len size rx).1.code = NGX_OK) :
    Undivided excused (take_len size rx).1.size (take_len size rx).2 := by
  rcases size_of_code_ok hcode with ⟨len, hknown⟩ | hclosed
  · rw [hknown]
    intro len' rest hlen
    obtain ⟨rfl, rfl⟩ : len = len' ∧ (take_len size rx).2 = rest := by simpa [noise_len] using hlen
    exact h _ _ (noise_len_of_taken hsize hcode hknown)
  · rw [rx_of_taken_closed hclosed, hclosed]
    intro len rest hlen
    cases hlen

namespace Endpoint

/-- So much of a noise message has come in: a part of its length, or all of it, or the stream has
ended. -/
inductive InMessage (w : Endpoint S) : Prop where
  | length (earlier : List (Part × UInt8)) (hfield : AtField .noise_msg earlier w)
  | body (earlier : List (Part × UInt8)) (b0 b1 : UInt8)
      (hsize : w.nc.noise_msg = .known (be16 b0 b1))
      (htaken : taken w.trace = earlier ++ [(.msg_len, b0), (.msg_len, b1)])
  | closed (len : Nat) (hsize : w.nc.noise_msg = .known len) (heof : w.c.read.eof = true)

theorem AtField.congr {f : LenField} {earlier : List (Part × UInt8)} {w v : Endpoint S}
    (h : AtField f earlier w) (hsize : v.nc.size f = w.nc.size f)
    (htaken : taken v.trace = taken w.trace) : AtField f earlier v := by
  cases h with
  | unset hunset hall => exact .unset (hsize.trans hunset) (htaken.trans hall)
  | first b0 hfirst hall => exact .first b0 (hsize.trans hfirst) (htaken.trans hall)

theorem InMessage.congr {w v : Endpoint S} (h : w.InMessage)
    (hsize : v.nc.noise_msg = w.nc.noise_msg) (htaken : taken v.trace = taken w.trace)
    (heof : v.c.read.eof = w.c.read.eof) : v.InMessage := by
  cases h with
  | length earlier hfield => exact .length earlier (hfield.congr hsize htaken)
  | body earlier b0 b1 hknown hall =>
    exact .body earlier b0 b1 (hsize.trans hknown) (htaken.trans hall)
  | closed len hknown hend => exact .closed len (hsize.trans hknown) (heof.trans hend)

theorem inMessage_of_unset {w : Endpoint S} (h : w.nc.noise_msg = .unset) : w.InMessage :=
  .length _ (.unset h rfl)

/-- The end of `ngx_nsoc_read_noise_msg`: it waits, a part of the message has come in, it fails, or
the buffer holds what has come in behind the length. -/
inductive NoiseEnd (excused : Prop) (r : Int × Endpoint S) : Prop where
  | waits (hn : r.1 = NGX_AGAIN) (hmessage : r.2.InMessage)
  | cut (hn : r.1 = NGX_AGAIN) (hexcused : excused)
  | failed (hn : r.1 = NGX_ERROR)
  | complete (hn : 0 ≤ r.1) (b : Buf) (hbuf : r.2.nc.buf = some b)
      (hmessage : Announced (taken r.2.trace) (b.bytes.take (r.2.nc.noise_msg.recv_size.getD 0)))

theorem part_got_of_recv {w : Endpoint S} {size : Nat} {b : Buf} {answer : Net.Answer}
    {rx : Net.Incoming} (hb : w.Target size b) (hroom : b.room ≠ 0) (heof : w.c.read.eof = false)
    (hrecv : w.env.rx.recv b.room = (answer, rx)) : w.part_got size = answerBytes answer := by
  have hgoes : ¬(b.room = 0 ∨ w.c.read.eof = true) := by simp [hroom, heof]
  simp only [part_got, target_eq_some.mpr hb]
  rw [if_neg hgoes, hrecv]

/-- The read of a noise message behind its length, into a buffer of its own. -/
theorem InMessage.read_part {excused : Prop} {w : Endpoint S} {len : Nat} (hw : w.InMessage)
    (hbuf : w.nc.buf = none) (hsize : w.nc.noise_msg = .known len)
    (hwhole : Undivided excused w.nc.noise_msg w.env.rx) :
    NoiseEnd excused (w.read_part (.msg_data len) len) := by
  rw [hsize] at hwhole
  obtain ⟨hlen, hbody⟩ := hwhole len w.env.rx rfl
  obtain ⟨hframe, hout⟩ := read_part_cases (.msg_data len) len w
  have htaken := w.taken_read_part (.msg_data len) hlen
  have hsize' : (w.read_part (.msg_data len) len).2.nc.noise_msg = .known len :=
    hframe.noise_msg.trans hsize
  have hnew : ∀ b, w.Target len b → b = ⟨[], 0, len⟩ := by
    rintro b (hb | ⟨-, -, hb⟩)
    · rw [hbuf] at hb
      cases hb
    · exact hb
  have hopen : w.c.read.eof = false → ∃ earlier b0 b1, len = be16 b0 b1 ∧
      taken w.trace = earlier ++ [(.msg_len, b0), (.msg_len, b1)] := by
    intro heof
    cases hw with
    | length earlier hfield =>
      cases hfield with
      | unset hunset | first b0 hunset =>
        have hother := hsize.symm.trans hunset
        cases hother
    | body earlier b0 b1 hknown hall =>
      rw [hsize] at hknown
      cases hknown
      exact ⟨earlier, b0, b1, rfl, hall⟩
    | closed _ _ hend =>
      rw [heof] at hend
      cases hend
  -- a read that delivers nothing leaves the message where it was
  have hnothing : w.c.read.eof = false → w.part_got len = [] →
      (w.read_part (.msg_data len) len).2.InMessage := by
    intro heof hgot
    obtain ⟨earlier, b0, b1, hbe, hall⟩ := hopen heof
    rw [hgot, List.map_nil, List.append_nil] at htaken
    exact .body earlier b0 b1 (hbe ▸ hsize') (htaken.trans hall)
  cases hout with
  | empty hzero => exact absurd hzero hlen
  | failed _ hn => exact .failed hn
  | again b hpos hb hn heof hrecv =>
    have hroom := hnew b hb
    subst hroom
    exact .waits hn (hnothing heof (part_got_of_recv hb hlen heof hrecv))
  | known_eof _ hn _ heof' => exact .waits hn (.closed len hsize' heof')
  | closed b hpos hb hn heof hrecv =>
    have hroom := hnew b hb
    subst hroom
    exact .waits hn (hnothing heof (part_got_of_recv hb hlen heof hrecv))
  | short b got hb hn _ hlt _ hrecv =>
    have hroom := hnew b hb
    subst hroom
    obtain hgot | hexcused := hbody got _ hrecv
    · exact absurd hlt (by omega)
    · exact .cut hn hexcused
  | whole b got hpos hb hn hle hroom heof hrecv _ _ hbuf' =>
    have hb' := hnew b hb
    subst hb'
    obtain ⟨earlier, b0, b1, hbe, hall⟩ := hopen heof
    have hgot : got.length = len := Nat.le_antisymm hroom hle
    refine .complete (by rw [hn]; exact Int.natCast_nonneg _) _ hbuf' ?_
    have hmessage : (([] : List UInt8) ++ got).take
        ((w.read_part (.msg_data len) len).2.nc.noise_msg.recv_size.getD 0) = got := by
      rw [hsize']
      exact List.take_of_length_le (Nat.le_of_eq hgot)
    rw [hmessage]
    refine ⟨earlier, b0, b1, hgot.trans hbe, ?_⟩
    rw [htaken, part_got_of_recv hb hlen heof hrecv, hall, hgot]
    rfl

/-- In front of a noise message that comes in undivided, with the buffer dropped. -/
structure AtNoise (excused : Prop) (w : Endpoint S) : Prop where
  message : w.InMessage
  whole : Undivided excused w.nc.noise_msg w.env.rx
  buf : w.nc.buf = none

theorem AtNoise.body {excused : Prop} {fuel : Nat} {w : Endpoint S}
    {flow : ControlFlow (Endpoint S) (Int × Endpoint S)} (hw : AtNoise excused w)
    (h : w.read_noise_msg_body fuel = ok flow) :
    flow.Holds (AtNoise excused) (NoiseEnd excused) := by
  rcases w.nc.noise_msg.incomplete_or with hsize | ⟨len, hsize⟩
  swap
  · rw [read_noise_msg_body_of_known hsize] at h
    cases h
    exact hw.message.read_part hw.buf hsize hw.whole
  rw [read_noise_msg_body_of_incomplete _ hsize, bind_eq_ok_iff] at h
  obtain ⟨r, hlen, hflow⟩ := h
  obtain ⟨hcode, hresult⟩ := read_len_cases hlen
  change LenResult .noise_msg w.Hooked r.2 (take_len w.nc.noise_msg w.env.rx) at hresult
  change r.1 = (take_len w.nc.noise_msg w.env.rx).1.code at hcode
  have hfield : ∃ earlier, AtField .noise_msg earlier w.Hooked := by
    cases hw.message with
    | length earlier hfield => exact ⟨earlier, hfield.congr rfl rfl⟩
    | body _ _ _ hknown | closed _ hknown =>
      rw [hknown] at hsize
      cases hsize
  obtain ⟨earlier, hfield⟩ := hfield
  have hbuf : r.2.nc.buf = none := hresult.frame.buf.trans hw.buf
  have hbehind : r.1 = NGX_OK → Undivided excused r.2.nc.noise_msg r.2.env.rx := by
    intro hok
    have hsize' : r.2.nc.noise_msg = (take_len w.nc.noise_msg w.env.rx).1.size := hresult.size
    rw [hsize', hresult.rx]
    exact hw.whole.behind hsize (hcode.symm.trans hok)
  cases hfield.read_len hlen with
  | again hn hfield' =>
    rw [if_pos hn] at hflow
    cases hflow
    obtain ⟨hrests, hagain | herror⟩ := r.2.read_again_rests
    · refine .waits hagain (.length earlier (hfield'.congr ?_ ?_))
      · exact (partFrame_read_again r.2).noise_msg
      · rw [hrests.trace]
    · exact .failed herror
  | known hn b0 b1 hknown htaken =>
    rw [if_neg (by rw [hn]; decide), if_pos (by rw [hn]; decide)] at hflow
    cases hflow
    exact ⟨.body earlier b0 b1 hknown htaken, hbehind hn, hbuf⟩
  | closed hn heof =>
    rw [if_neg (by rw [hn]; decide), if_pos (by rw [hn]; decide)] at hflow
    cases hflow
    refine ⟨?_, hbehind hn, hbuf⟩
    have hsize' : r.2.nc.noise_msg = (take_len w.nc.noise_msg w.env.rx).1.size := hresult.size
    rcases size_of_code_ok (hcode.symm.trans hn) with ⟨len, hknown⟩ | hclosed
    · exact .closed len (hsize'.trans hknown) heof
    · rw [hclosed] at hsize'
      exact inMessage_of_unset hsize'
  | error hn =>
    rw [if_neg (by rw [hn]; decide), if_neg (by rw [hn]; decide)] at hflow
    cases hflow
    exact .failed hn

/-- `ngx_nsoc_read_noise_msg` puts into the buffer what has come in behind the length. -/
theorem AtNoise.read_noise_msg {excused : Prop} {fuel : Nat} {w : Endpoint S}
    {r : Int × Endpoint S} (hw : AtNoise excused w) (h : w.read_noise_msg fuel = ok r) :
    NoiseEnd excused r := by
  refine loop_invariant (AtNoise excused) (NoiseEnd excused) ?_ ?_ hw h
  · exact fun v next hv hnext => hv.body hnext
  · exact fun v value hv hvalue => hv.body hvalue

end Endpoint

end ngx_nsoc
