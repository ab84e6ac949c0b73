import NoiseSocket.Relay

open Exec Exec.Result

namespace ngx_nsoc

variable {S : Type}

/-- A call of `ngx_nsoc_write` by a relay: the size of the payload, `nc->buffer_size`, and the payload
itself, which lies behind the two length fields. -/
structure WriteCall where
  data_size : Nat
  buffer_size : Nat
  payload : List UInt8
deriving DecidableEq, Repr

/-- The connection that a relay seals its payloads for. `buf` is `nc->buf` behind the handshake,
by addresses in `w.mem`, `flush` its flag, and `buffered` is the flag `NGX_NSOC_BUFFERED`. The calls of
`ngx_nsoc_write` are listed newest first. -/
structure NoiseDst (S : Type) where
  w : Endpoint S
  buf : Option RawBuf
  flush : Bool
  buffered : Bool
  calls : List WriteCall

namespace NoiseDst

/-- `c->send(c, data, size)` out of the memory `mem`. -/
def send (N : NoiseC S) (fuel : Nat) (d : NoiseDst S) (mem : Memory) (data size : Nat) :
    Result (Int × Memory × NoiseDst S) := do
  let r ← { d.w with mem }.write N fuel data size
  let data_size := size - 2 * NGX_NSOC_LEN_FIELD_SIZE
  let call : WriteCall :=
    ⟨data_size, d.w.nc.buffer_size, mem.read (data + 2 * NGX_NSOC_LEN_FIELD_SIZE) data_size⟩
  ok (r.1, r.2.mem, { d with w := { r.2 with mem := d.w.mem }, calls := call :: d.calls })

/-- What `ngx_nsoc_send_chain` goes round with and returns, where it does not put blocks together. -/
structure Unbuffered (S : Type) where
  chain : List Nat
  links : Links
  heap : Heap
  d : NoiseDst S

/-- One pass of the loop of `ngx_nsoc_send_chain` where `nc->buffer` is not set. Each block is
sealed where it lies, from the start of its buffer on. -/
def unbuffered_body (N : NoiseC S) (fuel : Nat) (u : Unbuffered S) :
    Result (ControlFlow (Unbuffered S) (Option (List Nat) × Unbuffered S)) :=
  match u.chain with
  | [] => ok (.done (some [], u))
  | i :: rest =>
    let b := u.links.buf i
    if b.ngx_buf_special then ok (.cont { u with chain := rest })
    else do
      let sent ← u.d.send N fuel (u.heap.block b) b.start (b.last - b.start)
      let n := sent.1
      let u := { u with
        links := u.links.set i { b with pos := b.start }
        heap := u.heap.setBlock b sent.2.1, d := sent.2.2 }
      if n = NGX_ERROR then ok (.done (none, u))
      else if n = NGX_AGAIN then ok (.done (some u.chain, u))
      else
        let b := { b with pos := b.start + n.toNat }
        let u := { u with links := u.links.set i b }
        ok (.cont { u with chain := if b.pos = b.last then rest else u.chain })

/-- What `ngx_nsoc_send_chain` goes round with where it puts blocks together. -/
structure Buffered (S : Type) where
  chain : List Nat
  links : Links
  d : NoiseDst S
  buf : RawBuf
  send : Int
  flush : Bool

/-- One pass of the loop that fills `nc->buf`: a block is copied from the start of its buffer on. -/
def fill_body (heap : Heap) (limit : Int) (u : Buffered S) :
    Result (ControlFlow (Buffered S) (Buffered S)) :=
  match u.chain with
  | [] => ok (.done u)
  | i :: rest =>
    if u.buf.stop ≤ u.buf.last ∨ limit ≤ u.send then ok (.done u)
    else
      let b := u.links.buf i
      let u := { u with flush := u.flush || b.last_buf || b.flush }
      if b.ngx_buf_special then ok (.cont { u with chain := rest })
      else
        let size := min (b.last - b.start) (u.buf.stop - u.buf.last)
        let size := if limit < u.send + size then (limit - u.send).toNat else size
        let mem := u.d.w.mem.write u.buf.last ((heap.block b).read b.start size)
        let b := { b with pos := b.start + size }
        ok (.cont { u with
          chain := if b.pos = b.last then rest else u.chain
          links := u.links.set i b
          d := { u.d with w := { u.d.w with mem } }
          buf := { u.buf with last := u.buf.last + size }
          send := u.send + size - 2 * NGX_NSOC_LEN_FIELD_SIZE })

/-- The end of `ngx_nsoc_send_chain` where it puts blocks together. -/
def keep (u : Buffered S) : Option (List Nat) × Buffered S :=
  (some u.chain,
    { u with d := { u.d with buf := some u.buf, flush := u.flush, buffered := u.buf.pos < u.buf.last } })

/-- One pass of the loop of `ngx_nsoc_send_chain` where `nc->buffer` is set. -/
def buffered_body (N : NoiseC S) (fuel : Nat) (heap : Heap) (limit : Int) (u : Buffered S) :
    Result (ControlFlow (Buffered S) (Option (List Nat) × Buffered S)) := do
  let u ← loop (fill_body heap limit) fuel u
  if ¬ u.flush ∧ u.send < limit ∧ u.buf.last < u.buf.stop then ok (.done (keep u))
  else
    let size := u.buf.last - u.buf.pos
    if size = 0 then ok (.done (keep { u with flush := false }))
    else
      let sent ← u.d.send N fuel u.d.w.mem u.buf.pos size
      let n := sent.1
      let u := { u with d := { sent.2.2 with w := { sent.2.2.w with mem := sent.2.1 } } }
      if n = NGX_ERROR then ok (.done (none, { u with d := { u.d with buf := some u.buf } }))
      else if n = NGX_AGAIN then ok (.done (keep u))
      else if n < size then
        ok (.done (keep { u with buf := { u.buf with pos := u.buf.pos + n.toNat } }))
      else
        let u := { u with
          flush := false, buf := { u.buf with pos := u.buf.start, last := u.buf.start } }
        if u.chain = [] ∨ u.send = limit then ok (.done (keep u)) else ok (.cont u)

/-- `nc->buf`, which is made at the first call. Its block of memory starts at address 1. -/
def alloc_buf (d : NoiseDst S) : Option RawBuf × NoiseDst S :=
  match d.buf with
  | some buf => (some buf, d)
  | none =>
    let granted := d.w.ngx_alloc
    let d := { d with w := granted.2 }
    if ¬ granted.1 then (none, d)
    else
      let buf : RawBuf := ⟨1, 1, 1,
        1 + d.w.nc.buffer_size + NOISE_PROTOCOL_MAC_DATA_SIZE + 2 * NGX_NSOC_LEN_FIELD_SIZE⟩
      (some buf, { d with buf := some buf, flush := false })

/-- The state in which the loop of `ngx_nsoc_send_chain` starts. -/
def start_buffered (chain : List Nat) (links : Links) (d : NoiseDst S) (buf : RawBuf) : Buffered S where
  chain := chain
  links := links
  d := d
  buf := buf
  send := (buf.last - buf.pos : Nat)
  flush := chain = [] || d.flush

/-- `ngx_nsoc_send_chain(c, in, 0)`. -/
def send_chain (N : NoiseC S) (fuel : Nat) (limit : Int) (chain : List Nat) (links : Links) (heap : Heap)
    (d : NoiseDst S) : Result (Option (List Nat) × Links × Heap × NoiseDst S) :=
  if d.w.nc.connection ≠ d.w.c.id then ok (none, links, heap, d)
  else if ¬ d.w.nc.buffer then do
    let r ← loop (unbuffered_body N fuel) fuel ⟨chain, links, heap, d⟩
    ok (r.1, r.2.links, r.2.heap, r.2.d)
  else
    match d.alloc_buf with
    | (none, d) => ok (none, links, heap, d)
    | (some buf, d) => do
      let r ← loop (buffered_body N fuel heap limit) fuel (start_buffered chain links d buf)
      ok (r.1, r.2.links, heap, r.2.d)

/-- What the rest of the program may do to a connection that a relay writes: it does not send. -/
structure Elsewhere (d d' : NoiseDst S) : Prop where
  buf : d'.buf = d.buf
  flush : d'.flush = d.flush
  buffered : d'.buffered = d.buffered
  calls : d'.calls = d.calls
  mem : d'.w.mem = d.w.mem
  to_send : d'.w.nc.to_send = d.w.nc.to_send
  send_buf : d'.w.nc.send_buf = d.w.nc.send_buf
  buffer_size : d'.w.nc.buffer_size = d.w.nc.buffer_size
  buffer : d'.w.nc.buffer = d.w.nc.buffer

/-- A connection behind its handshake. -/
structure Fresh (d : NoiseDst S) : Prop where
  buf : d.buf = none
  calls : d.calls = []
  to_send : d.w.nc.to_send = 0
  send_buf : d.w.nc.send_buf = none

end NoiseDst

/-- `NGX_MAX_INT32_VALUE - ngx_pagesize`. -/
def chain_limit (ngx_pagesize : Nat) : Int := 2147483647 - ngx_pagesize

/-- The operations of a connection that a relay seals its payloads for, and what is fixed on it: the
size `buffer_size` it was created with, and whether it puts blocks together. -/
def noise_destination (update_chains : UpdateChains) (N : NoiseC S) (fuel ngx_pagesize buffer_size : Nat)
    (buffer : Bool) : Destination (NoiseDst S) where
  send_chain := NoiseDst.send_chain N fuel (chain_limit ngx_pagesize)
  lowlevel_buffered d := d.buffered
  update_chains := update_chains
  elsewhere := NoiseDst.Elsewhere
  fresh d := d.Fresh ∧ d.w.nc.buffer_size = buffer_size ∧ d.w.nc.buffer = buffer

end ngx_nsoc
