import NoiseSocket.Nginx
import NoiseSocket.Lib.Result

open Exec Exec.Result

namespace ngx_nsoc

/-- What the write filter looks at in an `ngx_buf_t`. -/
structure FilterBuf where
  in_memory : Bool
  in_file : Bool
  size : Nat
  flush : Bool
  recycled : Bool
  sync : Bool
  last_buf : Bool
deriving DecidableEq, Repr

def FilterBuf.ngx_buf_special (b : FilterBuf) : Bool :=
  (b.flush || b.last_buf || b.sync) && !b.in_memory && !b.in_file

/-- A buffer of no bytes that says nothing either. -/
def FilterBuf.zero_size (b : FilterBuf) : Bool := b.size = 0 && !b.ngx_buf_special

/-- The connection that a filter writes, with everything behind the links: `c->send_chain`, which
returns the unsent rest of the chain or `NGX_CHAIN_ERROR`, the buffers of the links, and the flag
`NGX_LOWLEVEL_BUFFERED`. -/
structure Sender (L W : Type) where
  send_chain : List L → W → Result (Option (List L) × W)
  buf : W → L → FilterBuf
  lowlevel_buffered : W → Bool

/-- One direction of the write filter: the context and its chain, `c->error`, the flag
`NGX_NSOC_WRITE_BUFFERED`, and the answers of the pool. `ended` says that the last link of the chain
points to nothing. -/
structure WriteFilter (L W : Type) where
  ctx : Bool
  out : List L
  ended : Bool
  error : Bool
  write_buffered : Bool
  allocs : List Bool
  world : W

variable {L W : Type}

namespace WriteFilter

/-- An allocation from the pool. -/
def ngx_alloc (f : WriteFilter L W) : Bool × WriteFilter L W :=
  ((nextAnswer f.allocs).1, { f with allocs := (nextAnswer f.allocs).2 })

/-- The context of the filter, which is made at the first call. -/
def get_ctx (f : WriteFilter L W) : Bool × WriteFilter L W :=
  if f.ctx then (true, f)
  else if f.ngx_alloc.1 then (true, { f.ngx_alloc.2 with ctx := true, out := [], ended := true })
  else (false, f.ngx_alloc.2)

/-- Add the new chain to the existent one, link by link. Where that fails the link that was added last
keeps whatever it pointed to. -/
def add_chain (P : Sender L W) : List L → WriteFilter L W → Bool × WriteFilter L W
  | [], f => (true, { f with ended := true })
  | ln :: links, f =>
    let granted := f.ngx_alloc
    if ¬ granted.1 then (false, granted.2)
    else
      let f := { granted.2 with out := f.out ++ [ln], ended := false }
      if (P.buf f.world ln).zero_size then (false, f) else add_chain P links f

/-- The part of `ngx_nsoc_write_filter` behind the new links. -/
def send_out (P : Sender L W) (need_last_buf shared : Bool) (f : WriteFilter L W) :
    Result (Int × WriteFilter L W) :=
  let bufs := f.out.map (P.buf f.world)
  let flush := bufs.any fun b => b.flush || b.recycled
  let sync := bufs.any FilterBuf.sync
  let last := bufs.any FilterBuf.last_buf
  if (bufs.map FilterBuf.size).sum = 0 ∧ ¬ P.lowlevel_buffered f.world ∧ ¬ (last ∧ need_last_buf) then
    if last ∨ flush ∨ sync then ok (NGX_OK, { f with out := [], write_buffered := false })
    else ok (NGX_ERROR, f)
  else do
    let sent ← P.send_chain f.out f.world
    let f := { f with world := sent.2 }
    match sent.1 with
    | none => ok (NGX_ERROR, { f with error := true })
    | some [] =>
      let f := { f with out := [], write_buffered := false }
      ok (if P.lowlevel_buffered f.world then NGX_AGAIN else NGX_OK, f)
    | some chain =>
      let f := { f with out := chain }
      if shared then ok (NGX_ERROR, f) else ok (NGX_AGAIN, { f with write_buffered := true })

/-- The loop over the saved chain: it stops at a buffer of no bytes, and it cannot come to the end of a
chain that was not ended. -/
def walk (P : Sender L W) (f : WriteFilter L W) : List L → Result Bool
  | [] => if f.ended then ok true else fault
  | cl :: links => if (P.buf f.world cl).zero_size then ok false else walk P f links

/-- `ngx_nsoc_write_filter(s, in, from_upstream)`. -/
def write_filter (P : Sender L W) (need_last_buf shared : Bool) (links : List L) (f : WriteFilter L W) :
    Result (Int × WriteFilter L W) :=
  let got := f.get_ctx
  if ¬ got.1 then ok (NGX_ERROR, got.2)
  else if got.2.error then ok (NGX_ERROR, got.2)
  else do
    if ¬ (← got.2.walk P got.2.out) then ok (NGX_ERROR, got.2)
    else
      let added := got.2.add_chain P links
      if ¬ added.1 then ok (NGX_ERROR, added.2) else added.2.send_out P need_last_buf shared

end WriteFilter

end ngx_nsoc
