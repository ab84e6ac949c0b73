import NoiseSocket.Handler.Message.Gate

open Exec Exec.Result

namespace ngx_nsoc

variable {S : Type}

namespace Endpoint

/-- What writing a handshake message into a buffer leaves alone. -/
structure WriteFrame (w w' : Endpoint S) : Prop where
  c : w'.c = w.c
  nc : w'.nc = { w.nc with msg_num := w'.nc.msg_num }
  prologue : w'.prologue = w.prologue
  mem : w'.mem = w.mem
  env : w'.env = { w.env with allocs := w'.env.allocs }
  allocs : w.env.allocs = [] → w'.env.allocs = []

/-- How `ngx_nsoc_handshake_start_action_write_message` can end. An error of
noise-c comes back as it is. -/
inductive WriteOutcome (N : NoiseC S) (w w' : Endpoint S) (n : Int) (b : Option Buf) : Prop where
  | refused (hn : n = NGX_ERROR) (htrace : w'.trace = w.trace) (hnoise : w'.noise = w.noise)
      (hwhy : w.env.allocs = [] → w.message_header = none)
  | error_message (hn : n = NGX_OK) (hnum : w.nc.msg_num = NGX_NSOC_2MSG_ERR)
      (hb : b = some ⟨err_message, 0, message_room NGX_NSOC_2MSG_NEG_DATA_ERR_SIZE⟩)
      (htrace : w'.trace = w.trace) (hnoise : w'.noise = w.noise)
      (hnum' : w'.nc.msg_num = NGX_NSOC_1MSG)
  | noise_error (code : Nat) (hn : n = code) (hcode : code ≠ NOISE_ERROR_NONE)
      (hheader : w.message_header ≠ none)
      (hcall : (N.handshakestate_write_message w.noise).1.1 = code)
      (htrace : w'.trace = .write_message w.nc.msg_num code :: w.trace)
      (hnoise : w'.noise = (N.handshakestate_write_message w.noise).2)
  | written (header message : List UInt8) (next : Nat) (hn : n = NGX_OK)
      (hheader : w.message_header = some (header, next))
      (hcall : N.handshakestate_write_message w.noise = ((NOISE_ERROR_NONE, message), w'.noise))
      (hb : b = some ⟨header ++ lenBytes message.length ++ message, 0,
        message_room (header.length - NGX_NSOC_LEN_FIELD_SIZE)⟩)
      (htrace : w'.trace = .write_message w.nc.msg_num NOISE_ERROR_NONE :: w.trace)
      (hnum' : w'.nc.msg_num = next)

theorem message_header_ngx_alloc (w : Endpoint S) :
    w.ngx_alloc.2.message_header = w.message_header := rfl

theorem write_noise_message_of_ok {N : NoiseC S} {header : List UInt8} {w : Endpoint S}
    (h : (N.handshakestate_write_message w.noise).1.1 = NOISE_ERROR_NONE) :
    w.write_noise_message N header =
      (NGX_OK, some ⟨header ++ lenBytes (N.handshakestate_write_message w.noise).1.2.length ++
          (N.handshakestate_write_message w.noise).1.2, 0,
        message_room (header.length - NGX_NSOC_LEN_FIELD_SIZE)⟩,
        { w with noise := (N.handshakestate_write_message w.noise).2 }) :=
  if_neg (not_not.mpr h)

theorem write_noise_message_of_error {N : NoiseC S} {header : List UInt8} {w : Endpoint S}
    (h : (N.handshakestate_write_message w.noise).1.1 ≠ NOISE_ERROR_NONE) :
    w.write_noise_message N header =
      (((N.handshakestate_write_message w.noise).1.1 : Int), none,
        { w with noise := (N.handshakestate_write_message w.noise).2 }) :=
  if_pos h

theorem write_message_cases {N : NoiseC S} {w w' : Endpoint S} {n : Int} {b : Option Buf}
    (h : w.handshake_start_action_write_message N = ok (n, b, w')) :
    WriteFrame w w' ∧ WriteOutcome N w w' n b := by
  have hquiet : w.env.allocs = [] → (nextAnswer w.env.allocs).2 = [] := by
    intro hnil
    rw [hnil]
    rfl
  have hquiet2 : w.env.allocs = [] → (nextAnswer (nextAnswer w.env.allocs).2).2 = [] := by
    intro hnil
    rw [hnil]
    rfl
  have hgranted : w.env.allocs = [] → (nextAnswer w.env.allocs).1 = true := by
    intro hnil
    rw [hnil]
    rfl
  unfold handshake_start_action_write_message at h
  dsimp only at h
  by_cases hfirst : w.ngx_alloc.1 = true
  swap
  · rw [if_pos hfirst] at h
    cases h
    exact ⟨⟨rfl, rfl, rfl, rfl, rfl, hquiet⟩,
      .refused rfl rfl rfl fun hnil => absurd (hgranted hnil) hfirst⟩
  rw [if_neg (not_not.mpr hfirst)] at h
  by_cases herr : w.nc.msg_num = NGX_NSOC_2MSG_ERR
  · rw [if_pos (show w.ngx_alloc.2.nc.msg_num = _ from herr)] at h
    split_ifs at h with hsecond
    cases h
    exact ⟨⟨rfl, rfl, rfl, rfl, rfl, hquiet2⟩, .error_message rfl herr rfl rfl rfl rfl⟩
  rw [if_neg (show w.ngx_alloc.2.nc.msg_num ≠ _ from herr), message_header_ngx_alloc] at h
  rcases hheader : w.message_header with _ | ⟨header, next⟩
  · rw [hheader] at h
    cases h
    exact ⟨⟨rfl, rfl, rfl, rfl, rfl, hquiet⟩, .refused rfl rfl rfl fun _ => hheader⟩
  · rw [hheader] at h
    dsimp only at h
    by_cases hsecond : w.ngx_alloc.2.ngx_alloc.1 = true
    swap
    · rw [if_pos hsecond] at h
      cases h
    rw [if_neg (not_not.mpr hsecond)] at h
    by_cases hcode : (N.handshakestate_write_message w.noise).1.1 = NOISE_ERROR_NONE
    · rw [write_noise_message_of_ok (by exact hcode)] at h
      cases h
      refine ⟨⟨rfl, rfl, rfl, rfl, rfl, hquiet2⟩,
        .written header _ next rfl hheader (Prod.ext (Prod.ext hcode rfl) rfl) rfl ?_ rfl⟩
      exact congrArg (fun code => Obs.write_message w.nc.msg_num code :: w.trace) hcode
    · rw [write_noise_message_of_error (by exact hcode)] at h
      cases h
      exact ⟨⟨rfl, rfl, rfl, rfl, rfl, hquiet2⟩, .noise_error _ rfl hcode (by simp [hheader]) rfl rfl rfl⟩

theorem write_message_ne_div (N : NoiseC S) (w : Endpoint S) :
    w.handshake_start_action_write_message N ≠ div := by
  unfold handshake_start_action_write_message
  dsimp only
  rcases w.ngx_alloc.2.message_header with _ | ⟨header, next⟩
  all_goals split_ifs <;> simp

/-- What sending a handshake message leaves alone. -/
structure SendFrame (w w' : Endpoint S) : Prop where
  noise : w'.noise = w.noise
  prologue : w'.prologue = w.prologue
  mem : w'.mem = w.mem
  trace : w'.trace = w.trace
  id : w'.c.id = w.c.id
  transport : w'.c.transport = w.c.transport
  eof : w'.c.read.eof = w.c.read.eof
  read_handler : w'.c.read.handler = .handshake_handler
  write_handler : w'.c.write.handler = .handshake_handler
  nc : w'.nc = { w.nc with last := w'.nc.last, buf := w'.nc.buf }
  rx : w'.env.rx = w.env.rx
  allocs : w'.env.allocs = w.env.allocs
  sends : w.env.sends = [] → w'.env.sends = []
  events : w.env.events = [] → w'.env.events = []

/-- How sending a handshake message can end. -/
inductive SendOutcome (N : NoiseC S) (b : Buf) (w : Endpoint S) :
    ControlFlow (Endpoint S) (Int × Endpoint S) → Prop where
  | refused {w' : Endpoint S} (hframe : SendFrame w w') (hevents : w.EventRefused) :
      SendOutcome N b w (.done (NGX_ERROR, w'))
  | blocked {w' : Endpoint S} (hframe : SendFrame w w') (hsends : w.env.sends ≠ [])
      (hlast : w'.nc.last = NOISE_ACTION_WRITE_MESSAGE) (hbuf : w'.nc.buf = some b)
      (htimer : w'.c.write.timer_set = true) : SendOutcome N b w (.done (NGX_AGAIN, w'))
  | wait {w' : Endpoint S} (hframe : SendFrame w w')
      (haction : N.handshakestate_get_action w.noise = NOISE_ACTION_READ_MESSAGE)
      (hlast : w'.nc.last = 0) (hbuf : w'.nc.buf = none)
      (htx : w.env.sends = [] → w'.env.tx = w.env.tx ++ b.bytes.drop b.pos)
      (htimer : w'.c.read.timer_set = true) : SendOutcome N b w (.done (NGX_AGAIN, w'))
  | go_on {w' : Endpoint S} (hframe : SendFrame w w')
      (haction : N.handshakestate_get_action w.noise ≠ NOISE_ACTION_READ_MESSAGE)
      (hlast : w'.nc.last = 0) (hbuf : w'.nc.buf = none)
      (htx : w.env.sends = [] → w'.env.tx = w.env.tx ++ b.bytes.drop b.pos) :
      SendOutcome N b w (.cont w')

theorem ngx_send_frame (w : Endpoint S) (bytes : List UInt8) :
    (w.ngx_send bytes).2 =
        { w with env := { w.env with
          sends := (w.ngx_send bytes).2.env.sends, tx := (w.ngx_send bytes).2.env.tx } } ∧
      (w.env.sends = [] → (w.ngx_send bytes).1 = bytes.length ∧
        (w.ngx_send bytes).2.env.sends = [] ∧
        (w.ngx_send bytes).2.env.tx = w.env.tx ++ bytes) := by
  unfold ngx_send
  split
  · rename_i hnil
    simp [hnil]
  all_goals
    rename_i hcons
    simp [hcons]

theorem nextAnswer_nil_of_nil {answers : List Bool} (h : answers = []) :
    (nextAnswer answers).2 = [] := by
  rw [h]
  rfl

/-- Every exit of the write path that would block arms the write timer. -/
theorem write_again_cases (w : Endpoint S) (b : Buf) :
    w.EventRefused ∧ w.write_again b = (NGX_ERROR, (w.setWriteReady false).ngx_handle_event.2) ∨
      w.write_again b = (NGX_AGAIN,
        ((((w.setWriteReady false).ngx_handle_event.2.setWriteTimer true).setReadTimer false).setBuf
          (some b)).setLast NOISE_ACTION_WRITE_MESSAGE) := by
  rcases hanswer : (nextAnswer w.env.events).1 with _ | _
  · left
    refine ⟨hanswer, ?_⟩
    simp [write_again, ngx_handle_event, setWriteReady, hanswer]
  · right
    simp [write_again, ngx_handle_event, setWriteReady, hanswer]

theorem send_action_cases (N : NoiseC S) (b : Buf) (w : Endpoint S) :
    SendOutcome N b w (w.send_action N b) := by
  unfold send_action
  dsimp only
  rcases hsend : (w.setLast 0).ngx_send (b.bytes.drop b.pos) with ⟨n, v⟩
  obtain ⟨hv, hquiet⟩ := (w.setLast 0).ngx_send_frame (b.bytes.drop b.pos)
  rw [hsend] at hv hquiet
  dsimp only at hv hquiet ⊢
  rw [hv]
  split_ifs with hshort haction hrc
  · have hsends : w.env.sends ≠ [] := by
      intro hnil
      have hn := (hquiet hnil).1
      rcases hshort with hshort | hshort
      · simp only [NGX_AGAIN] at hshort
        omega
      · omega
    rcases write_again_cases _ b with ⟨hrefused, heq⟩ | heq
    · rw [heq]
      refine .refused ⟨rfl, rfl, rfl, rfl, rfl, rfl, rfl, rfl, rfl, rfl, rfl, rfl, ?_, ?_⟩ hrefused
      · exact fun hnil => (hquiet hnil).2.1
      · exact nextAnswer_nil_of_nil
    · rw [heq]
      refine .blocked ⟨rfl, rfl, rfl, rfl, rfl, rfl, rfl, rfl, rfl, rfl, rfl, rfl, ?_, ?_⟩ hsends rfl
        rfl rfl
      · exact fun hnil => (hquiet hnil).2.1
      · exact nextAnswer_nil_of_nil
  · have hanswer : (nextAnswer w.env.events).1 = false := by
      by_contra hgranted
      have hgranted : (nextAnswer w.env.events).1 = true := by simpa using hgranted
      exact hrc (if_pos hgranted)
    refine .refused ⟨rfl, rfl, rfl, rfl, rfl, rfl, rfl, rfl, rfl, rfl, rfl, rfl, ?_, ?_⟩ hanswer
    · exact fun hnil => (hquiet hnil).2.1
    · exact nextAnswer_nil_of_nil
  · refine .wait ⟨rfl, rfl, rfl, rfl, rfl, rfl, rfl, rfl, rfl, rfl, rfl, rfl, ?_, ?_⟩ haction rfl rfl
      ?_ rfl
    · exact fun hnil => (hquiet hnil).2.1
    · exact nextAnswer_nil_of_nil
    · exact fun hnil => (hquiet hnil).2.2
  · refine .go_on ⟨rfl, rfl, rfl, rfl, rfl, rfl, rfl, rfl, rfl, rfl, rfl, rfl, ?_, fun h => h⟩ haction
      rfl rfl ?_
    · exact fun hnil => (hquiet hnil).2.1
    · exact fun hnil => (hquiet hnil).2.2

end Endpoint

end ngx_nsoc
