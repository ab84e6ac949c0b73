import NoiseSocket.Handler.Data.Stream
import NoiseSocket.Handler.Handshake.Sends

open Exec Exec.Result

namespace ngx_nsoc

variable {S : Type}

namespace Endpoint

/-- An endpoint without its timers, its handlers, its flags other than the end of the stream, and what has
been observed. -/
structure Kernel (S : Type) where
  nc : NoiseConnection
  noise : S
  prologue : PrologueData
  mem : Memory
  env : Env
  id : Nat
  eof : Bool
  transport : Transport

def kernel (w : Endpoint S) : Kernel S :=
  ⟨w.nc, w.noise, w.prologue, w.mem, w.env, w.c.id, w.c.read.eof, w.c.transport⟩

/-- Two endpoints with the same kernel. -/
def Like (w u : Endpoint S) : Prop := w.kernel = u.kernel

/-- The environment refuses nothing, and the stream is open. -/
structure Granted (w : Endpoint S) : Prop where
  events : w.env.events = []
  allocs : w.env.allocs = []
  eof : w.c.read.eof = false

/-- What is left of the stream. -/
def leaving (w : Endpoint S) (rx : Net.Incoming) : Endpoint S :=
  { w with env := { w.env with rx } }

/-- The first segment of what is left begins with `bytes`. -/
def Leads (bytes : List UInt8) (left : Net.Incoming) (w : Endpoint S) : Prop :=
  ∃ more rest closed, w.env.rx = ⟨Net.unread (bytes ++ more) rest, closed⟩ ∧ left = ⟨Net.unread more rest, closed⟩

section

variable {w v u : Endpoint S} {f : LenField} {fuel : Nat} {bytes : List UInt8} {left : Net.Incoming}

namespace Like

theorem trans (h : w.Like v) (h' : v.Like u) : w.Like u := Eq.trans h h'

theorem nc (h : w.Like v) : w.nc = v.nc := congrArg Kernel.nc h

theorem noise (h : w.Like v) : w.noise = v.noise := congrArg Kernel.noise h

theorem prologue (h : w.Like v) : w.prologue = v.prologue := congrArg Kernel.prologue h

theorem mem (h : w.Like v) : w.mem = v.mem := congrArg Kernel.mem h

theorem env (h : w.Like v) : w.env = v.env := congrArg Kernel.env h

theorem id (h : w.Like v) : w.c.id = v.c.id := congrArg Kernel.id h

theorem eof (h : w.Like v) : w.c.read.eof = v.c.read.eof := congrArg Kernel.eof h

theorem transport (h : w.Like v) : w.c.transport = v.c.transport := congrArg Kernel.transport h

/-- The same change on both sides. -/
theorem map (h : w.Like v) (f : Kernel S → Kernel S) {w' v' : Endpoint S} (hw : w'.kernel = f w.kernel)
    (hv : v'.kernel = f v.kernel) : w'.Like v' :=
  hw.trans ((congrArg f h).trans hv.symm)

end Like

theorem Granted.of_like (h : v.Like w) (hevents : w.env.events = []) (hallocs : w.env.allocs = [])
    (heof : w.c.read.eof = false) : v.Granted :=
  ⟨by rw [h.env, hevents], by rw [h.env, hallocs], by rw [h.eof, heof]⟩

theorem Leads.split {front back : List UInt8} (h : Leads (front ++ back) left w) :
    ∃ between, Leads front between w ∧ ∀ v : Endpoint S, v.env.rx = between → Leads back left v := by
  obtain ⟨more, rest, closed, hrx, rfl⟩ := h
  refine ⟨⟨Net.unread (back ++ more) rest, closed⟩, ⟨back ++ more, rest, closed, ?_, rfl⟩, ?_⟩
  · rw [hrx, List.append_assoc]
  · intro v hv
    exact ⟨more, rest, closed, hv, rfl⟩

/-- A read of exactly the bytes that the segment begins with. -/
theorem ngx_recv_leading (hlead : Leads bytes left w) (hne : bytes ≠ []) (part : Part) :
    ∃ v : Endpoint S, w.ngx_recv part bytes.length = ((bytes.length : Int), bytes, v) ∧
      v.Like (w.leaving left) := by
  obtain ⟨more, rest, closed, hrx, rfl⟩ := hlead
  obtain ⟨b, bs, rfl⟩ := List.exists_cons_of_ne_nil hne
  have hrecv : w.env.rx.recv (b :: bs).length = (.data (b :: bs), ⟨Net.unread more rest, closed⟩) := by
    rw [hrx, List.cons_append, Net.unread_cons, Net.recv_data, ← List.cons_append, List.take_left,
      List.drop_left]
  simp only [ngx_recv, hrecv]
  exact ⟨_, rfl, rfl⟩

theorem ngx_recv_again {size : Nat} (hrecv : w.env.rx.recv size = (.again, left)) (part : Part) :
    ∃ v : Endpoint S, w.ngx_recv part size = (NGX_AGAIN, [], v) ∧ v.Like (w.leaving left) := by
  simp only [ngx_recv, hrecv]
  exact ⟨_, rfl, rfl⟩

theorem setSize_self {size : SizeField} (h : w.nc.size f = size) : w.setSize f size = w := by
  subst h
  cases f <;> rfl

/-- A length that has come in whole. -/
theorem read_len_leading {size : Nat} (hfuel : 0 < fuel) (hunset : w.nc.size f = .unset)
    (hsize : size < 65536) (hlead : Leads (lenBytes size) left w) :
    ∃ v, w.read_len f fuel = ok (NGX_OK, v) ∧ v.Like ((w.setSize f (.known size)).leaving left) := by
  have hlead' : Leads (lenBytes size) left (w.setSize f .unset) := hlead
  obtain ⟨v, hrecv, hv⟩ := ngx_recv_leading hlead' (by simp [lenBytes]) f.part
  refine ⟨v.setSize f (.known size), ?_, ?_⟩
  · simp only [read_len, hunset]
    apply loop_of_done hfuel
    have hrecv : (w.setSize f .unset).ngx_recv f.part 2 =
        (2, [UInt8.ofNat (size / 256), UInt8.ofNat size], v) := hrecv
    simp only [read_len_body, List.length_nil, NGX_NSOC_LEN_FIELD_SIZE, Nat.sub_zero, hrecv]
    rw [if_pos (by omega), List.nil_append]
    simp only [be16_lenBytes hsize]
  · refine hv.map (fun k => { k with nc := k.nc.setSize (.known size) f }) rfl ?_
    cases f <;> rfl

theorem read_len_again (hfuel : 0 < fuel) (hunset : w.nc.size f = .unset)
    (hrecv : w.env.rx.recv NGX_NSOC_LEN_FIELD_SIZE = (.again, left)) :
    ∃ v, w.read_len f fuel = ok (NGX_AGAIN, v) ∧ v.Like (w.leaving left) := by
  obtain ⟨v, hcall, hv⟩ := ngx_recv_again hrecv f.part
  have hsize : v.nc.size f = .unset := by
    rw [hv.nc]
    exact hunset
  refine ⟨v, ?_, hv⟩
  simp only [read_len, hunset, setSize_self hunset]
  apply loop_of_done hfuel
  simp only [read_len_body, List.length_nil, Nat.sub_zero, hcall]
  rw [if_neg (by simp), if_neg (by simp), if_neg (by simp), hsize,
    show SizeField.unset.stop_reading = .unset from rfl, setSize_self hsize]

theorem Granted.ngx_alloc (h : w.Granted) : w.ngx_alloc = (true, w) := by
  obtain ⟨c, nc, noise, prologue, mem, ⟨rx, sends, events, allocs, tx⟩, trace⟩ := w
  obtain rfl : allocs = [] := h.allocs
  rfl

theorem Granted.ngx_handle_event (h : w.Granted) : w.ngx_handle_event = (NGX_OK, w) := by
  obtain ⟨c, nc, noise, prologue, mem, ⟨rx, sends, events, allocs, tx⟩, trace⟩ := w
  obtain rfl : events = [] := h.events
  rfl

/-- A part that has come in whole behind its length. -/
theorem read_part_leading (hgranted : w.Granted) (hbuf : w.nc.buf = none) (hne : bytes ≠ [])
    (hlead : Leads bytes left w) (part : Part) :
    ∃ v : Endpoint S, w.read_part part bytes.length = ((bytes.length : Int), v) ∧
      v.Like ((w.setBuf (some ⟨bytes, 0, bytes.length⟩)).leaving left) := by
  have hpos : bytes.length ≠ 0 := fun h => hne (List.eq_nil_of_length_eq_zero h)
  have hlead' : Leads bytes left (w.setBuf (some ⟨[], 0, bytes.length⟩)) := hlead
  obtain ⟨v, hrecv, hv⟩ := ngx_recv_leading hlead' hne part
  refine ⟨(v.setBuf (some ⟨bytes, 0, bytes.length⟩)).setReadTimer false, ?_, ?_⟩
  · have hfill : w.read_handshake_data part bytes.length =
        ((bytes.length : Int), (v.setBuf (some ⟨bytes, 0, bytes.length⟩)).setReadTimer false) := by
      have heof : (w.setBuf (some ⟨[], 0, bytes.length⟩)).c.read.eof = false := hgranted.eof
      simp only [read_handshake_data, hbuf, hgranted.ngx_alloc, if_true, fill_buf, Buf.room, List.length_nil,
        Nat.sub_zero, if_neg hpos, heof, Bool.false_eq_true, if_false, hrecv]
      rw [if_pos (Int.natCast_nonneg _), List.nil_append]
    simp only [read_part, if_pos hpos, hfill]
    rw [if_pos (Int.natCast_nonneg _), read_finish, if_neg (Int.lt_irrefl _)]
  · exact hv.map (fun k => { k with nc := { k.nc with buf := some ⟨bytes, 0, bytes.length⟩ } }) rfl rfl

theorem read_again_granted (hgranted : w.Granted) :
    ∃ v, w.read_again = (NGX_AGAIN, v) ∧ v.Like (w.setLast NOISE_ACTION_READ_MESSAGE) := by
  have hgranted' : (w.setLast NOISE_ACTION_READ_MESSAGE).Granted := ⟨hgranted.events, hgranted.allocs, hgranted.eof⟩
  refine ⟨(w.setLast NOISE_ACTION_READ_MESSAGE).setReadTimer true, ?_, rfl⟩
  simp only [read_again, hgranted'.ngx_handle_event, ne_eq, not_true_eq_false, if_false]

/-- The buffer of a part that has come in. -/
def part_buf (bytes : List UInt8) : Option Buf := if bytes = [] then none else some ⟨bytes, 0, bytes.length⟩

theorem read_part_all (hgranted : w.Granted) (hbuf : w.nc.buf = none) (hlead : Leads bytes left w) (part : Part) :
    ∃ v : Endpoint S, w.read_part part bytes.length = ((bytes.length : Int), v) ∧
      v.Like ((w.setBuf (part_buf bytes)).leaving left) := by
  by_cases hne : bytes = []
  · subst hne
    obtain ⟨more, rest, closed, hrx, rfl⟩ := hlead
    refine ⟨w, read_part_zero _ _, ?_⟩
    rw [List.nil_append] at hrx
    rw [part_buf, if_pos rfl, ← hbuf, ← hrx]
    rfl
  · rw [part_buf, if_neg hne]
    exact read_part_leading hgranted hbuf hne hlead part

/-- A negotiation part of the length that is expected, in one piece. -/
theorem read_negotiation_leading (bytes : List UInt8) (hfuel : 2 ≤ fuel) (hgranted : w.Granted) (hunset : w.nc.neg_data = .unset)
    (hbuf : w.nc.buf = none) (hsize : bytes.length < 65536)
    (hlead : Leads (lenBytes bytes.length ++ bytes) left w) :
    ∃ v : Endpoint S, w.read_negotiation fuel bytes.length = ok ((bytes.length : Int), v) ∧ v.Like
      { w.leaving left with nc := { w.nc with neg_data := .known bytes.length, buf := part_buf bytes } } := by
  obtain ⟨n, rfl⟩ : ∃ n, fuel = n + 1 := ⟨fuel - 1, by omega⟩
  obtain ⟨between, hlen, hpart⟩ := hlead.split
  obtain ⟨v, hread, hv⟩ := read_len_leading (w := w.Hooked) (f := .neg_data) (show 0 < n + 1 by omega) hunset
    hsize hlen
  have hknown : v.nc.neg_data = .known bytes.length := by
    rw [hv.nc]
    rfl
  have hv_buf : v.nc.buf = none := by
    rw [hv.nc]
    exact hbuf
  have hv_rx : v.env.rx = between := by
    rw [hv.env]
    rfl
  have hbody := read_negotiation_body_of_incomplete (n + 1) bytes.length
    (show w.nc.neg_data.incomplete by rw [hunset]; rfl)
  rw [hread, bind_ok, if_neg (by simp), if_pos (by simp), hknown, SizeField.recv_size, if_pos rfl] at hbody
  have hv_granted : v.Granted := Granted.of_like hv hgranted.events hgranted.allocs hgranted.eof
  obtain ⟨v', hread', hv'⟩ := read_part_all (w := v.log (.negotiation bytes.length (some bytes.length)))
    ⟨hv_granted.events, hv_granted.allocs, hv_granted.eof⟩ hv_buf (hpart _ hv_rx) (.neg_data bytes.length)
  refine ⟨v', ?_, hv'.trans (hv.map (fun k => { k with
    nc := { k.nc with buf := part_buf bytes }, env := { k.env with rx := left } }) rfl rfl)⟩
  rw [read_negotiation, loop_of_cont hbody]
  apply loop_of_done (by omega)
  rw [read_negotiation_body_of_known (by exact hknown), hread']

/-- A noise message that has come in whole behind its length. -/
theorem read_noise_msg_leading (hfuel : 2 ≤ fuel) (hgranted : w.Granted) (hunset : w.nc.noise_msg = .unset)
    (hbuf : w.nc.buf = none) (hsize : bytes.length < 65536)
    (hlead : Leads (lenBytes bytes.length ++ bytes) left w) :
    ∃ v : Endpoint S, w.read_noise_msg fuel = ok ((bytes.length : Int), v) ∧ v.Like
      { w.leaving left with nc := { w.nc with noise_msg := .known bytes.length, buf := part_buf bytes } } := by
  obtain ⟨n, rfl⟩ : ∃ n, fuel = n + 1 := ⟨fuel - 1, by omega⟩
  obtain ⟨between, hlen, hpart⟩ := hlead.split
  obtain ⟨v, hread, hv⟩ := read_len_leading (w := w.Hooked) (f := .noise_msg) (show 0 < n + 1 by omega) hunset
    hsize hlen
  have hknown : v.nc.noise_msg = .known bytes.length := by
    rw [hv.nc]
    rfl
  have hv_buf : v.nc.buf = none := by
    rw [hv.nc]
    exact hbuf
  have hv_rx : v.env.rx = between := by
    rw [hv.env]
    rfl
  have hbody := read_noise_msg_body_of_incomplete (n + 1)
    (show w.nc.noise_msg.incomplete by rw [hunset]; rfl)
  rw [hread, bind_ok, if_neg (by simp), if_pos (by simp)] at hbody
  have hv_granted : v.Granted := Granted.of_like hv hgranted.events hgranted.allocs hgranted.eof
  obtain ⟨v', hread', hv'⟩ := read_part_all hv_granted hv_buf (hpart _ hv_rx) (.msg_data bytes.length)
  refine ⟨v', ?_, hv'.trans (hv.map (fun k => { k with
    nc := { k.nc with buf := part_buf bytes }, env := { k.env with rx := left } }) rfl rfl)⟩
  rw [read_noise_msg, loop_of_cont hbody]
  apply loop_of_done (by omega)
  rw [read_noise_msg_body_of_known hknown, hread']

/-- Nothing has come in: the reader of the negotiation part waits. -/
theorem read_negotiation_again (true_len : Nat) (hfuel : 2 ≤ fuel) (hgranted : w.Granted)
    (hunset : w.nc.neg_data = .unset) (hrecv : w.env.rx.recv NGX_NSOC_LEN_FIELD_SIZE = (.again, left)) :
    ∃ v : Endpoint S, w.read_negotiation fuel true_len = ok (NGX_AGAIN, v) ∧
      v.Like ((w.leaving left).setLast NOISE_ACTION_READ_MESSAGE) := by
  obtain ⟨v, hread, hv⟩ := read_len_again (w := w.Hooked) (f := .neg_data) (show 0 < fuel by omega) hunset hrecv
  have hbody := read_negotiation_body_of_incomplete fuel true_len
    (show w.nc.neg_data.incomplete by rw [hunset]; rfl)
  rw [hread, bind_ok, if_pos rfl] at hbody
  obtain ⟨v', hagain, hv'⟩ := read_again_granted (Granted.of_like hv hgranted.events hgranted.allocs hgranted.eof)
  refine ⟨v', ?_, hv'.trans (hv.map (fun k => { k with nc := { k.nc with last := NOISE_ACTION_READ_MESSAGE } }) rfl rfl)⟩
  rw [read_negotiation, ← hagain]
  exact loop_of_done (by omega) hbody

/-- The number of the message behind message `msg_num`. -/
def next_num (msg_num : Nat) : Nat :=
  if msg_num = NGX_NSOC_1MSG then NGX_NSOC_2MSG_OK
  else if msg_num = NGX_NSOC_2MSG_OK then NGX_NSOC_3MSG else NGX_NSOC_1MSG

/-- A noise message that noise-c accepts. -/
theorem read_message_noise_leading {N : NoiseC S} {noise : S} (hfuel : 2 ≤ fuel) (hgranted : w.Granted)
    (hunset : w.nc.noise_msg = .unset) (hbuf : w.nc.buf = none) (hne : bytes ≠ []) (hsize : bytes.length < 65536)
    (hlead : Leads (lenBytes bytes.length ++ bytes) left w)
    (haccept : N.handshakestate_read_message bytes w.noise = (NOISE_ERROR_NONE, noise)) :
    ∃ v : Endpoint S, w.read_message_noise N fuel = ok (NGX_OK, v) ∧ v.Like
      { w.leaving left with
        noise, nc := { w.nc with buf := none, last := 0, noise_msg := .unset, neg_data := .unset } } := by
  obtain ⟨v, hread, hv⟩ := read_noise_msg_leading hfuel hgranted hunset hbuf hsize hlead
  have hv_buf : v.nc.buf = some ⟨bytes, 0, bytes.length⟩ := by
    rw [hv.nc]
    exact if_neg hne
  have hv_size : v.nc.noise_msg = .known bytes.length := by rw [hv.nc]
  have haccept' : N.handshakestate_read_message bytes v.noise = (NOISE_ERROR_NONE, noise) := by
    rw [hv.noise]
    exact haccept
  refine ⟨message_done { v with noise, trace := .read_message bytes NOISE_ERROR_NONE :: v.trace }, ?_, ?_⟩
  · simp only [read_message_noise, hread, bind_ok]
    rw [if_neg (by omega)]
    simp only [hv_buf, hv_size, SizeField.recv_size, Option.getD_some, List.take_length, haccept']
    rfl
  · exact hv.map (fun k => { k with
      noise, nc := { k.nc with buf := none, last := 0, noise_msg := .unset, neg_data := .unset } }) rfl rfl

/-- The first message: its header has been read in the phase before. -/
theorem read_first_message_leading {N : NoiseC S} {noise : S} (hfuel : 2 ≤ fuel) (hgranted : w.Granted)
    (hnum : w.nc.msg_num = NGX_NSOC_1MSG) (hunset : w.nc.noise_msg = .unset) (hne : bytes ≠ [])
    (hsize : bytes.length < 65536) (hlead : Leads (lenBytes bytes.length ++ bytes) left w)
    (haccept : N.handshakestate_read_message bytes w.noise = (NOISE_ERROR_NONE, noise)) :
    ∃ v : Endpoint S, w.handshake_start_action_read_message N fuel = ok (NGX_OK, v) ∧ v.Like
      { w.leaving left with
        noise
        nc := { w.nc with
          buf := none, last := 0, msg_num := NGX_NSOC_2MSG_OK, noise_msg := .unset, neg_data := .unset } } := by
  have hbody : read_message_body fuel (none, w) =
      ok (.done (.leave NGX_OK (w.setMsgNum NGX_NSOC_2MSG_OK))) := by
    simp only [read_message_body, hnum, if_true]
  obtain ⟨v, hread, hv⟩ := read_message_noise_leading (w := (w.setMsgNum NGX_NSOC_2MSG_OK).setBuf none) hfuel
    ⟨hgranted.events, hgranted.allocs, hgranted.eof⟩ hunset rfl hne hsize hlead haccept
  refine ⟨v, ?_, hv⟩
  rw [handshake_start_action_read_message, loop_of_done (by omega) hbody, bind_ok]
  exact hread

/-- A later message, with its empty negotiation part. -/
theorem read_message_leading {N : NoiseC S} {noise : S} (hfuel : 2 ≤ fuel) (hgranted : w.Granted)
    (hnum : w.nc.msg_num = NGX_NSOC_2MSG_OK ∨ w.nc.msg_num = NGX_NSOC_3MSG) (hneg : w.nc.neg_data = .unset)
    (hunset : w.nc.noise_msg = .unset) (hbuf : w.nc.buf = none) (hne : bytes ≠ [])
    (hsize : bytes.length < 65536) (hlead : Leads (lenBytes 0 ++ (lenBytes bytes.length ++ bytes)) left w)
    (haccept : N.handshakestate_read_message bytes w.noise = (NOISE_ERROR_NONE, noise)) :
    ∃ v : Endpoint S, w.handshake_start_action_read_message N fuel = ok (NGX_OK, v) ∧ v.Like
      { w.leaving left with
        noise
        nc := { w.nc with
          buf := none, last := 0, msg_num := next_num w.nc.msg_num, noise_msg := .unset, neg_data := .unset } } := by
  obtain ⟨n, rfl⟩ : ∃ n, fuel = n + 1 := ⟨fuel - 1, by omega⟩
  obtain ⟨between, hneglen, hmessage⟩ := hlead.split
  obtain ⟨u, hread, hu⟩ := read_negotiation_leading [] hfuel hgranted hneg hbuf
    (show 0 < 65536 by omega) hneglen
  have hu_num : u.nc.msg_num = w.nc.msg_num := by rw [hu.nc]
  have hu_neg : u.nc.neg_data = .known 0 := by
    rw [hu.nc]
    rfl
  have hfirst : read_message_body (n + 1) (none, w) = ok (.cont (some 0, u)) := by
    have hread : w.read_negotiation (n + 1) 0 = ok (0, u) := hread
    obtain htwo | hthree := hnum
    · simp [read_message_body, htwo, hread]
    · simp [read_message_body, hthree, hread]
  have hsecond : read_message_body (n + 1) (some 0, u) =
      ok (.done (.leave NGX_OK (u.setMsgNum (next_num w.nc.msg_num)))) := by
    obtain htwo | hthree := hnum
    · simp [read_message_body, hu_num, htwo, hu_neg, SizeField.recv_size, next_num]
    · simp [read_message_body, hu_num, hthree, next_num]
  have hu_granted : u.Granted := Granted.of_like hu hgranted.events hgranted.allocs hgranted.eof
  have hu_rx : u.env.rx = between := by
    rw [hu.env]
    rfl
  have hu_unset : u.nc.noise_msg = .unset := by
    rw [hu.nc]
    exact hunset
  have hu_accept : N.handshakestate_read_message bytes u.noise = (NOISE_ERROR_NONE, noise) := by
    rw [hu.noise]
    exact haccept
  obtain ⟨v, hrest, hv⟩ := read_message_noise_leading
    (w := (u.setMsgNum (next_num w.nc.msg_num)).setBuf none) hfuel
    ⟨hu_granted.events, hu_granted.allocs, hu_granted.eof⟩ hu_unset rfl hne hsize (hmessage _ hu_rx) hu_accept
  refine ⟨v, ?_, hv.trans (hu.map (fun k => { k with
    noise
    nc := { k.nc with buf := none, last := 0, msg_num := next_num w.nc.msg_num, noise_msg := .unset,
                      neg_data := .unset }
    env := { k.env with rx := left } }) rfl rfl)⟩
  rw [handshake_start_action_read_message, loop_of_cont hfirst, loop_of_done (by omega) hsecond, bind_ok]
  exact hrest

/-- A message of which nothing has come in. -/
theorem read_message_again {N : NoiseC S} (hfuel : 2 ≤ fuel) (hgranted : w.Granted)
    (hnum : w.nc.msg_num = NGX_NSOC_2MSG_OK ∨ w.nc.msg_num = NGX_NSOC_3MSG) (hneg : w.nc.neg_data = .unset)
    (hbuf : w.nc.buf = none) (hrecv : w.env.rx.recv NGX_NSOC_LEN_FIELD_SIZE = (.again, left)) :
    ∃ v : Endpoint S, w.handshake_start_action_read_message N fuel = ok (NGX_AGAIN, v) ∧
      v.Like ((w.leaving left).setLast NOISE_ACTION_READ_MESSAGE) := by
  obtain ⟨u, hread, hu⟩ := read_negotiation_again 0 hfuel hgranted hneg hrecv
  have hbody : read_message_body fuel (none, w) = ok (.done (.leave NGX_AGAIN u)) := by
    obtain htwo | hthree := hnum
    · simp [read_message_body, htwo, hread]
    · simp [read_message_body, hthree, hread]
  refine ⟨u.setBuf none, ?_, ?_⟩
  · rw [handshake_start_action_read_message, loop_of_done (by omega) hbody, bind_ok]
    exact if_pos (by simp)
  · have hcopy : u.setBuf none = u := by
      have hu_buf : u.nc.buf = none := by
        rw [hu.nc]
        exact hbuf
      rw [setBuf, ← hu_buf]
    rwa [hcopy]

end

end Endpoint

end ngx_nsoc
