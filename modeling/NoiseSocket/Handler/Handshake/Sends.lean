import NoiseSocket.Handler.Handshake.Phases

open Exec Exec.Result

namespace ngx_nsoc

variable {S : Type}

/-- The socket takes all of `len` bytes. -/
def Sent.takes_all (len : Nat) : Sent → Bool
  | .count limit => len ≤ limit
  | _ => false

/-- The socket takes nothing and does not fail. -/
def Sent.takes_none : Sent → Bool
  | .count limit => limit = 0
  | .again => true
  | .error => false

/-- How many bytes the socket takes at most. -/
def Sent.portion : Sent → Nat
  | .count limit => limit
  | _ => 0

namespace Endpoint

/-- A flow that leaves the rest of a message to the next call. -/
def suspended : ControlFlow (Endpoint S) (Int × Endpoint S) → Option (Endpoint S)
  | .cont _ => none
  | .done (n, w) => if n = NGX_AGAIN ∧ w.nc.last = NOISE_ACTION_WRITE_MESSAGE then some w else none

/-- The answer of the socket to the next `c->send` when it is asked for all of `len` bytes. -/
def takes_all (len : Nat) (w : Endpoint S) : Bool :=
  match w.env.sends with
  | [] => true
  | answer :: _ => answer.takes_all len

theorem ngx_send_all {w : Endpoint S} {bytes : List UInt8} (h : w.takes_all bytes.length = true) :
    ∃ sends, w.ngx_send bytes =
      ((bytes.length : Int), { w with env := { w.env with sends, tx := w.env.tx ++ bytes } }) := by
  unfold takes_all at h
  unfold ngx_send
  cases hsends : w.env.sends with
  | nil => exact ⟨w.env.sends, by simp⟩
  | cons answer sends =>
    rw [hsends] at h
    cases answer with
    | count limit =>
      have hlimit : bytes.length ≤ limit := by simpa [Sent.takes_all] using h
      refine ⟨sends, ?_⟩
      dsimp only
      rw [List.take_of_length_le hlimit]
    | again | error => cases h

theorem ngx_send_part {w : Endpoint S} {bytes : List UInt8} {answer : Sent} {sends : List Sent}
    (hsends : w.env.sends = answer :: sends) (h : answer.takes_all bytes.length = false) :
    ∃ n : Int, (n = NGX_AGAIN ∨ n < bytes.length) ∧ w.ngx_send bytes =
      (n, { w with env := { w.env with sends, tx := w.env.tx ++ bytes.take answer.portion } }) := by
  unfold ngx_send
  rw [hsends]
  cases answer with
  | count limit =>
    have hlimit : limit < bytes.length := by simpa [Sent.takes_all] using h
    refine ⟨_, .inr ?_, rfl⟩
    simp only [List.length_take]
    omega
  | again => exact ⟨NGX_AGAIN, .inl rfl, by simp [Sent.portion]⟩
  | error =>
    refine ⟨NGX_ERROR, .inr ?_, by simp [Sent.portion]⟩
    simp only [NGX_ERROR]
    omega

theorem write_again_of_refused {w : Endpoint S} (b : Buf) (h : (nextAnswer w.env.events).1 = false) :
    w.write_again b = (NGX_ERROR, (w.setWriteReady false).ngx_handle_event.2) := by
  simp [write_again, ngx_handle_event, setWriteReady, h]

theorem write_again_of_granted {w : Endpoint S} (b : Buf) (h : (nextAnswer w.env.events).1 = true) :
    w.write_again b = (NGX_AGAIN,
      ((((w.setWriteReady false).ngx_handle_event.2.setWriteTimer true).setReadTimer false).setBuf
        (some b)).setLast NOISE_ACTION_WRITE_MESSAGE) := by
  simp [write_again, ngx_handle_event, setWriteReady, h]

/-- A message that was left to the next call: `sent` has gone out, the whole of `b` is kept. -/
structure Kept (b : Buf) (sent : List UInt8) (sends : List Sent) (w u : Endpoint S) : Prop where
  nc : u.nc = { w.nc with buf := some b, last := NOISE_ACTION_WRITE_MESSAGE }
  env : u.env =
    { w.env with sends, events := (nextAnswer w.env.events).2, tx := w.env.tx ++ sent }
  trace : u.trace = w.trace
  eof : u.c.read.eof = w.c.read.eof

/-- How a `c->send` of the message `b` ends. -/
inductive SendEnd (b : Buf) (w : Endpoint S) :
    ControlFlow (Endpoint S) (Int × Endpoint S) → Prop where
  | whole {flow : ControlFlow (Endpoint S) (Int × Endpoint S)}
      (hsends : w.takes_all (b.bytes.drop b.pos).length = true) (hover : suspended flow = none)
      (htx : (flowState flow).env.tx = w.env.tx ++ b.bytes.drop b.pos)
      (htrace : (flowState flow).trace = w.trace) : SendEnd b w flow
  | refused {u : Endpoint S} {answer : Sent} {sends : List Sent} (hsends : w.env.sends = answer :: sends)
      (hevent : (nextAnswer w.env.events).1 = false)
      (htx : u.env.tx = w.env.tx ++ (b.bytes.drop b.pos).take answer.portion)
      (htrace : u.trace = w.trace) : SendEnd b w (.done (NGX_ERROR, u))
  | kept {u : Endpoint S} {answer : Sent} {sends : List Sent} (hsends : w.env.sends = answer :: sends)
      (hpart : answer.takes_all (b.bytes.drop b.pos).length = false)
      (hevent : (nextAnswer w.env.events).1 = true)
      (hkept : Kept b ((b.bytes.drop b.pos).take answer.portion) sends w u) :
      SendEnd b w (.done (NGX_AGAIN, u))

theorem suspended_of_kept {b : Buf} {sent : List UInt8} {sends : List Sent} {w u : Endpoint S}
    (h : Kept b sent sends w u) : suspended (.done (NGX_AGAIN, u)) = some u := by
  have hlast : u.nc.last = NOISE_ACTION_WRITE_MESSAGE := by rw [h.nc]
  rw [suspended, if_pos ⟨rfl, hlast⟩]

/-- The exit that both phases have for a message that did not go out as a whole. -/
theorem sendEnd_write_again {b : Buf} {w u : Endpoint S} {answer : Sent} {sends : List Sent}
    (hsends : w.env.sends = answer :: sends)
    (hpart : answer.takes_all (b.bytes.drop b.pos).length = false)
    (hnc : u.nc = { w.nc with last := u.nc.last })
    (henv : u.env =
      { w.env with sends, tx := w.env.tx ++ (b.bytes.drop b.pos).take answer.portion })
    (htrace : u.trace = w.trace) (heof : u.c.read.eof = w.c.read.eof) :
    SendEnd b w (.done (u.write_again b)) := by
  have hevents : u.env.events = w.env.events := by rw [henv]
  cases hevent : (nextAnswer w.env.events).1 with
  | false =>
    rw [write_again_of_refused b (hevents ▸ hevent)]
    refine .refused hsends hevent ?_ htrace
    exact congrArg Env.tx henv
  | true =>
    rw [write_again_of_granted b (hevents ▸ hevent)]
    refine .kept hsends hpart hevent ⟨?_, ?_, htrace, heof⟩
    · simp only [setLast, setBuf, setReadTimer, setWriteTimer, setWriteReady, ngx_handle_event]
      rw [hnc]
    · simp only [setLast, setBuf, setReadTimer, setWriteTimer, setWriteReady, ngx_handle_event]
      rw [henv]

/-- The write action of the second phase. -/
theorem sendEnd_send_action (N : NoiseC S) (b : Buf) (w : Endpoint S) :
    SendEnd b w (w.send_action N b) := by
  unfold send_action
  dsimp only
  cases hall : w.takes_all (b.bytes.drop b.pos).length with
  | true =>
    obtain ⟨sends, hsend⟩ := ngx_send_all (w := w.setLast 0) hall
    rw [hsend, if_neg (by simp)]
    refine .whole hall ?_ ?_ ?_
    all_goals split_ifs <;> rfl
  | false =>
    unfold takes_all at hall
    cases hsends : w.env.sends with
    | nil =>
      rw [hsends] at hall
      cases hall
    | cons answer sends =>
      rw [hsends] at hall
      obtain ⟨n, hn, hsend⟩ := ngx_send_part (w := w.setLast 0) hsends hall
      rw [hsend, if_pos hn]
      exact sendEnd_write_again hsends hall rfl rfl rfl rfl

/-- The reply of the first phase, from the call of `c->send` on. -/
def reply (b : Buf) (w : Endpoint S) : Int × Endpoint S :=
  let (n, w) := w.ngx_send (b.bytes.drop b.pos)
  let w := w.setHandlers .handshake_handler
  if n = NGX_AGAIN ∨ n < (b.bytes.drop b.pos).length then w.write_again b
  else (NGX_ERROR, (w.setReadReady false).setBuf none)

theorem version_error_eq_reply {N : NoiseC S} {b : Buf} {w v : Endpoint S}
    (hmsg : (w.setMsgNum NGX_NSOC_2MSG_ERR).handshake_start_action_write_message N =
      ok (NGX_OK, some b, v)) : w.version_error N = ok (v.reply b) := by
  unfold version_error reply
  simp only [hmsg, bind_ok]
  rw [if_neg (by simp)]
  split_ifs <;> rfl

theorem sendEnd_reply (b : Buf) (w : Endpoint S) : SendEnd b w (.done (w.reply b)) := by
  unfold reply
  cases hall : w.takes_all (b.bytes.drop b.pos).length with
  | true =>
    obtain ⟨sends, hsend⟩ := ngx_send_all hall
    rw [hsend]
    dsimp only
    rw [if_neg (by simp)]
    exact .whole hall rfl rfl rfl
  | false =>
    unfold takes_all at hall
    cases hsends : w.env.sends with
    | nil =>
      rw [hsends] at hall
      cases hall
    | cons answer sends =>
      rw [hsends] at hall
      obtain ⟨n, hn, hsend⟩ := ngx_send_part hsends hall
      rw [hsend]
      dsimp only
      rw [if_pos hn]
      exact sendEnd_write_again hsends hall rfl rfl rfl rfl

end Endpoint

end ngx_nsoc
