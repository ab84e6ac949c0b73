import NoiseSocket.Handler.State

open Exec Exec.Result

namespace ngx_noise_protocol

open ngx_nsoc

/-- A key file: its contents, if it can be opened. -/
abbrev KeyFile := Option (List UInt8)

/-- The loop of `ngx_noise_protocol_load_private_key`, with the bytes stored at
`key` so far and those still in the file. -/
def load_private_key_loop (len : Nat) : List UInt8 → List UInt8 → Int × List UInt8
  | stored, [] => (if stored.length < len then NGX_ERROR else NGX_OK, stored)
  | stored, ch :: rest =>
    if len ≤ stored.length then (NGX_ERROR, stored)
    else load_private_key_loop len (stored ++ [ch]) rest

/-- `ngx_noise_protocol_load_private_key`: the return value and the bytes stored. -/
def load_private_key (file : KeyFile) (len : Nat) : Int × List UInt8 :=
  if NOISE_PROTOCOL_MAX_DH_KEY_LEN < len then (NGX_ERROR, [])
  else
    match file with
    | none => (NGX_ERROR, [])
    | some bytes => load_private_key_loop len [] bytes

/-- What a character of a public key file is. -/
inductive KeyChar where
  | digit (value : UInt32)
  | pad
  | blank
  | invalid
deriving DecidableEq, Repr

/-- The comparisons of `ngx_noise_protocol_load_public_key`. -/
def key_char (ch : UInt8) : KeyChar :=
  if 65 ≤ ch ∧ ch ≤ 90 then .digit (ch.toUInt32 - 65)
  else if 97 ≤ ch ∧ ch ≤ 122 then .digit (ch.toUInt32 - 97 + 26)
  else if 48 ≤ ch ∧ ch ≤ 57 then .digit (ch.toUInt32 - 48 + 52)
  else if ch = 43 then .digit 62
  else if ch = 47 then .digit 63
  else if ch = 61 then .pad
  else if ch = 32 ∨ ch = 9 ∨ ch = 13 ∨ ch = 10 then .blank
  else .invalid

/-- The variables of `ngx_noise_protocol_load_public_key`. -/
structure KeyDecoder where
  group : UInt32
  group_size : Nat
  digit : UInt32
  stored : List UInt8
deriving DecidableEq, Repr

/-- The part of the loop behind the comparisons; `none` is the return with an
error. The digits of a full group stay in `group`. -/
def KeyDecoder.push (len : Nat) (k : KeyDecoder) : Option KeyDecoder :=
  let group := (k.group <<< 6) ||| k.digit
  if 4 ≤ k.group_size + 1 then
    if len - k.stored.length < 3 then none
    else
      some { k with
        group, group_size := 0
        stored := k.stored ++ [(group >>> 16).toUInt8, (group >>> 8).toUInt8, group.toUInt8] }
  else some { k with group, group_size := k.group_size + 1 }

/-- What is left of a group at the end of the file. -/
def KeyDecoder.finish (len : Nat) (k : KeyDecoder) : Int × List UInt8 :=
  let check (stored : List UInt8) : Int × List UInt8 :=
    (if stored.length < len then NGX_ERROR else NGX_OK, stored)
  if k.group_size = 3 then
    if len - k.stored.length < 2 then (NGX_ERROR, k.stored)
    else check (k.stored ++ [(k.group >>> 10).toUInt8, (k.group >>> 2).toUInt8])
  else if k.group_size = 2 then
    if len - k.stored.length < 1 then (NGX_ERROR, k.stored)
    else check (k.stored ++ [(k.group >>> 4).toUInt8])
  else check k.stored

/-- The loop of `ngx_noise_protocol_load_public_key`. A blank leaves `digit` as it
was, and the code behind the comparisons runs with it once more. -/
def load_public_key_loop (len : Nat) : KeyDecoder → List UInt8 → Int × List UInt8
  | k, [] => k.finish len
  | k, ch :: rest =>
    match key_char ch with
    | .pad => k.finish len
    | .invalid => (NGX_ERROR, k.stored)
    | .digit value =>
      match KeyDecoder.push len { k with digit := value } with
      | none => (NGX_ERROR, k.stored)
      | some k => load_public_key_loop len k rest
    | .blank =>
      match k.push len with
      | none => (NGX_ERROR, k.stored)
      | some k => load_public_key_loop len k rest

/-- `ngx_noise_protocol_load_public_key`: the return value and the bytes stored. -/
def load_public_key (file : KeyFile) (len : Nat) : Int × List UInt8 :=
  if NOISE_PROTOCOL_MAX_DH_KEY_LEN < len then (NGX_ERROR, [])
  else
    match file with
    | none => (NGX_ERROR, [])
    | some bytes => load_public_key_loop len ⟨0, 0, 0, []⟩ bytes

/-- A 64-bit word as the (little-endian) host stores it. -/
def le64 (n : Nat) : List UInt8 := (List.range 8).map fun i => UInt8.ofNat (n / 256 ^ i)

/-- The addresses a pool gives for an array of one `ngx_str_t` and for the bytes of
its key; zero is `NULL`. -/
structure KeyBlock where
  elts : Nat
  data : Nat
deriving DecidableEq, Repr

/-- The size of an `ngx_str_t`. -/
@[simp] abbrev NGX_STR_SIZE : Nat := 16

/-- The `ngx_str_t` of a key, stored at the elements of its array. -/
def KeyBlock.record (block : KeyBlock) : List UInt8 :=
  le64 NOISE_PROTOCOL_CURVE25519_KEY_LEN ++ le64 block.data

/-- Create an array of one string and load a key into it. The results of
`ngx_array_create` and `ngx_pnalloc` are not checked. -/
def load_key_array (load : Nat → Int × List UInt8) (block : KeyBlock) (mem : Memory) :
    Result (Option KeyArray × Memory) :=
  if block.elts = 0 then fault
  else
    let mem := mem.write block.elts block.record
    let (rc, key) := load NOISE_PROTOCOL_CURVE25519_KEY_LEN
    if block.data = 0 ∧ key ≠ [] then fault
    else
      let mem := mem.write block.data key
      if rc ≠ NGX_OK then ok (none, mem) else ok (some ⟨block.elts, 1⟩, mem)

/-- The key file directives of a server; `none` is a directive that is not given. -/
structure KeyConf where
  private_key_file : Option KeyFile
  public_key_file : Option KeyFile
deriving DecidableEq, Repr

/-- What the configuration pool answers while the keys are loaded. -/
structure KeyAlloc where
  private_key : KeyBlock
  public_key : KeyBlock
deriving DecidableEq, Repr

/-- The block that loads the private key into `NOISE_CTX`. -/
def load_private_keys (conf : KeyConf) (alloc : KeyAlloc) (ctx : NoiseCtx) (mem : Memory) :
    Result (Int × NoiseCtx × Memory) := do
  match conf.private_key_file with
  | none => ok (NGX_ERROR, ctx, mem)
  | some file =>
    match ← load_key_array (load_private_key file) alloc.private_key mem with
    | (none, mem) => ok (NGX_ERROR, ctx, mem)
    | (some keys, mem) => ok (NGX_OK, { ctx with private_keys := some keys }, mem)

/-- The block that loads the public key into `NOISE_CTX`. -/
def load_public_keys (conf : KeyConf) (alloc : KeyAlloc) (ctx : NoiseCtx) (mem : Memory) :
    Result (Int × NoiseCtx × Memory) := do
  match conf.public_key_file with
  | none => ok (NGX_OK, ctx, mem)
  | some file =>
    match ← load_key_array (load_public_key file) alloc.public_key mem with
    | (none, mem) => ok (NGX_ERROR, ctx, mem)
    | (some keys, mem) => ok (NGX_OK, { ctx with public_keys := some keys }, mem)

/-- The keys of `ngx_nsoc_noiseserver_handler`: those that are not there yet. -/
def noiseserver_load_keys (conf : KeyConf) (alloc : KeyAlloc) (ctx : NoiseCtx) (mem : Memory) :
    Result (Int × NoiseCtx × Memory) := do
  let (rc, ctx, mem) ←
    if ctx.private_keys = none then load_private_keys conf alloc ctx mem else ok (NGX_OK, ctx, mem)
  if rc ≠ NGX_OK then ok (rc, ctx, mem)
  else if ctx.public_keys = none then load_public_keys conf alloc ctx mem
  else ok (NGX_OK, ctx, mem)

/-- The keys of `ngx_nsoc_proxy_set_noiselink`, into a new `NOISE_CTX`: the public
key comes first. -/
def proxy_load_keys (conf : KeyConf) (alloc : KeyAlloc) (mem : Memory) :
    Result (Int × NoiseCtx × Memory) := do
  if conf.private_key_file = none then ok (NGX_ERROR, ⟨none, none⟩, mem)
  else
    let (rc, ctx, mem) ← load_public_keys conf alloc ⟨none, none⟩ mem
    if rc ≠ NGX_OK then ok (rc, ctx, mem) else load_private_keys conf alloc ctx mem

end ngx_noise_protocol
