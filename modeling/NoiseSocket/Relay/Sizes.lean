import NoiseSocket.Relay.SendChain

namespace ngx_nsoc

variable {S : Type}

/-- The directives of a block of the configuration that fix the sizes, where the block has them. -/
structure SizeDirectives where
  preread_buffer_size : Option Nat
  block_buffer_size : Option Nat
deriving DecidableEq, Repr

/-- `ngx_conf_merge_size_value`: the value of the block, else that of the block around it. -/
def ngx_conf_merge_size_value (conf prev : Option Nat) (default : Nat) : Nat :=
  match conf with
  | some value => value
  | none => prev.getD default

/-- The sizes of an accepted configuration: `preread` is `cscf->nsoc_preread_buffer_size`, and `block` is
`pscf->buffer_size`. -/
structure BufferSizes where
  preread : Nat
  block : Nat
  preread_le : preread ≤ NOISE_PROTOCOL_PAYLOAD_SIZE
  block_le : block ≤ NOISE_PROTOCOL_PAYLOAD_SIZE
deriving DecidableEq, Repr

/-- `ngx_nsoc_core_merge_srv_conf` and `ngx_nsoc_proxy_merge_srv_conf`, as far as the sizes go: a size that
no frame has room for is refused. -/
def SizeDirectives.merge_srv_conf (conf prev : SizeDirectives) : Option BufferSizes :=
  let preread := ngx_conf_merge_size_value conf.preread_buffer_size prev.preread_buffer_size
    NOISE_PROTOCOL_PAYLOAD_SIZE
  let block := ngx_conf_merge_size_value conf.block_buffer_size prev.block_buffer_size
    NOISE_PROTOCOL_PAYLOAD_SIZE
  if h : preread ≤ NOISE_PROTOCOL_PAYLOAD_SIZE ∧ block ≤ NOISE_PROTOCOL_PAYLOAD_SIZE then
    some ⟨preread, block, h.1, h.2⟩
  else none

/-- The two sizes are accepted independently of each other. -/
theorem SizeDirectives.merge_srv_conf_of_sizes (sizes : BufferSizes) (prev : SizeDirectives) :
    SizeDirectives.merge_srv_conf ⟨some sizes.preread, some sizes.block⟩ prev = some sizes :=
  dif_pos ⟨sizes.preread_le, sizes.block_le⟩

namespace BufferSizes

/-- The size that `ngx_nsoc_create` is called with: by `ngx_nsoc_noiseserver_merge_conf` for the client,
and by `ngx_nsoc_proxy_set_noiselink` for the upstream server. -/
def noise_buffer_size (sizes : BufferSizes) (from_upstream : Bool) : Nat :=
  if from_upstream then sizes.preread else sizes.block

theorem noise_buffer_size_le (sizes : BufferSizes) (from_upstream : Bool) :
    sizes.noise_buffer_size from_upstream ≤ NOISE_PROTOCOL_PAYLOAD_SIZE := by
  cases from_upstream
  · exact sizes.block_le
  · exact sizes.preread_le

/-- The connection that a direction seals its payloads for. `ngx_nsoc_create_connection` has the flag
`NGX_NSOC_BUFFER` for the upstream server alone. -/
def destination (sizes : BufferSizes) (update_chains : UpdateChains) (N : NoiseC S) (fuel ngx_pagesize : Nat)
    (from_upstream : Bool) : Destination (NoiseDst S) :=
  noise_destination update_chains N fuel ngx_pagesize (sizes.noise_buffer_size from_upstream) (!from_upstream)

end BufferSizes

end ngx_nsoc
