import NoiseSocket.Handler.State

open Exec

namespace ngx_nsoc

variable {S : Type}

/-- The return value of `ngx_recv`. -/
def answerCode : Net.Answer → Int
  | .data got => got.length
  | .eof => 0
  | .again => NGX_AGAIN
  | .error => NGX_ERROR

/-- The bytes `ngx_recv` stored. -/
def answerBytes : Net.Answer → List UInt8
  | .data got => got
  | _ => []

/-- What `ngx_recv` does to the read event. A count of zero is end of file. -/
def Event.afterRecv (ev : Event) : Net.Answer → Event
  | .data [] => { ev with ready := false, eof := true }
  | .data _ => ev
  | .eof => { ev with ready := false, eof := true }
  | .again => { ev with ready := false }
  | .error => { ev with ready := false, error := true }

namespace Endpoint

def log (w : Endpoint S) (o : Obs) : Endpoint S := { w with trace := o :: w.trace }

/-- `ngx_recv(c, buf, size)`: the return value, the bytes stored, and the state. -/
def ngx_recv (w : Endpoint S) (part : Part) (size : Nat) : Int × List UInt8 × Endpoint S :=
  let (answer, rx) := w.env.rx.recv size
  (answerCode answer, answerBytes answer,
    { w with
      c := { w.c with read := w.c.read.afterRecv answer }
      env := { w.env with rx }
      trace := .recv part size (answerCode answer) (answerBytes answer) :: w.trace })

/-- `c->send(c, buf, size)` of a connection that is still in clear text. -/
def ngx_send (w : Endpoint S) (bytes : List UInt8) : Int × Endpoint S :=
  match w.env.sends with
  | [] => (bytes.length, { w with env := { w.env with tx := w.env.tx ++ bytes } })
  | .count limit :: sends =>
    ((bytes.take limit).length,
      { w with env := { w.env with sends, tx := w.env.tx ++ bytes.take limit } })
  | .again :: sends => (NGX_AGAIN, { w with env := { w.env with sends } })
  | .error :: sends => (NGX_ERROR, { w with env := { w.env with sends } })

/-- `ngx_handle_read_event` and `ngx_handle_write_event`. -/
def ngx_handle_event (w : Endpoint S) : Int × Endpoint S :=
  let (answer, events) := nextAnswer w.env.events
  (if answer then NGX_OK else NGX_ERROR, { w with env := { w.env with events } })

/-- An allocation from the connection's pool succeeds or returns `NULL`. -/
def ngx_alloc (w : Endpoint S) : Bool × Endpoint S :=
  let (answer, allocs) := nextAnswer w.env.allocs
  (answer, { w with env := { w.env with allocs } })

def setReadTimer (w : Endpoint S) (armed : Bool) : Endpoint S :=
  { w with c := { w.c with read := { w.c.read with timer_set := armed } } }

def setWriteTimer (w : Endpoint S) (armed : Bool) : Endpoint S :=
  { w with c := { w.c with write := { w.c.write with timer_set := armed } } }

def setReadReady (w : Endpoint S) (ready : Bool) : Endpoint S :=
  { w with c := { w.c with read := { w.c.read with ready } } }

def setWriteReady (w : Endpoint S) (ready : Bool) : Endpoint S :=
  { w with c := { w.c with write := { w.c.write with ready } } }

/-- Both events of the connection get the handler `h`. -/
def setHandlers (w : Endpoint S) (h : EventHandler) : Endpoint S :=
  { w with c := { w.c with
    read := { w.c.read with handler := h }
    write := { w.c.write with handler := h } } }

def setLast (w : Endpoint S) (last : Int) : Endpoint S := { w with nc := { w.nc with last } }

def setBuf (w : Endpoint S) (buf : Option Buf) : Endpoint S := { w with nc := { w.nc with buf } }

def setMsgNum (w : Endpoint S) (msg_num : Nat) : Endpoint S :=
  { w with nc := { w.nc with msg_num } }

end Endpoint

end ngx_nsoc
