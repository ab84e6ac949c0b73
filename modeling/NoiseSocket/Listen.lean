import NoiseSocket.Lib.Insertion
import NoiseSocket.Lib.Loop

open Exec Exec.Result

namespace ngx_nsoc

/-- `sa_family`. -/
inductive Family where
  | inet
  | inet6
deriving DecidableEq, Repr

/-- The type of a socket. -/
inductive SockType where
  | stream
  | dgram
deriving DecidableEq, Repr

/-- `INADDR_ANY`, which is `in6addr_any` as well. -/
abbrev INADDR_ANY : Nat := 0

/-- `ngx_nsoc_listen_t`. The address stands for `sin_addr` or `sin6_addr`, and `C` is the
type of what `ctx` points to. -/
structure Listen (C : Type) where
  family : Family
  type : SockType
  addr : Nat
  port : Nat
  ctx : C
  bind : Bool
  wildcard : Bool
  noise_on : Bool
deriving DecidableEq, Repr

/-- `ngx_nsoc_conf_port_t`. -/
structure ConfPort (C : Type) where
  family : Family
  type : SockType
  port : Nat
  addrs : List (Listen C)
deriving DecidableEq, Repr

/-- `ngx_nsoc_addr_conf_t`. -/
structure AddrConf (C : Type) where
  ctx : C
  noise_on : Bool
deriving DecidableEq, Repr

/-- `ngx_nsoc_in_addr_t` and `ngx_nsoc_in6_addr_t`. -/
structure InAddr (C : Type) where
  addr : Nat
  conf : AddrConf C
deriving DecidableEq, Repr

/-- `ngx_listening_t`, with the `ngx_nsoc_port_t` of its `servers`. -/
structure Listening (C : Type) where
  family : Family
  type : SockType
  addr : Nat
  port : Nat
  wildcard : Bool
  naddrs : Nat
  addrs : List (InAddr C)
deriving DecidableEq, Repr

variable {C : Type}

/-- `ngx_cmp_sockaddr` and the comparison of the types: the same address and port. -/
def Listen.same (ls als : Listen C) : Prop :=
  ls.type = als.type ∧ ls.family = als.family ∧ ls.addr = als.addr ∧ ls.port = als.port

instance (ls als : Listen C) : Decidable (ls.same als) :=
  inferInstanceAs (Decidable (_ ∧ _ ∧ _ ∧ _))

/-- `ngx_nsoc_core_listen` behind the parsing of the directive: a directive that the
parameters or a duplicate rule out is an error. -/
def core_listen (listen : List (Listen C)) (ls : Listen C) : Option (List (Listen C)) :=
  if ls.type = .dgram ∧ ls.noise_on then none
  else if ∃ als ∈ listen, als.same ls then none
  else some (listen ++ [ls])

/-- `ngx_nsoc_add_ports`. -/
def add_ports : List (ConfPort C) → Listen C → List (ConfPort C)
  | [], listen => [⟨listen.family, listen.type, listen.port, [listen]⟩]
  | port :: ports, listen =>
    if listen.port = port.port ∧ listen.type = port.type ∧ listen.family = port.family then
      { port with addrs := port.addrs ++ [listen] } :: ports
    else port :: add_ports ports listen

/-- `ngx_nsoc_cmp_conf_addrs`. -/
def cmp_conf_addrs (first second : Listen C) : Int :=
  if first.wildcard then 1
  else if second.wildcard then -1
  else if first.bind ∧ ¬ second.bind then -1
  else if ¬ first.bind ∧ second.bind then 1
  else 0

/-- `ngx_nsoc_add_addrs` and `ngx_nsoc_add_addrs6`: `naddrs` entries are copied from
`addr` on. -/
def add_addrs (conf_addrs : List (Listen C)) : Nat → Nat → Result (List (InAddr C))
  | _, 0 => ok []
  | addr, naddrs + 1 =>
    match conf_addrs[addr]? with
    | none => fault
    | some opt => do
      let addrs ← add_addrs conf_addrs (addr + 1) naddrs
      ok (⟨opt.addr, ⟨opt.ctx, opt.noise_on⟩⟩ :: addrs)

/-- The variables of the loop of `ngx_nsoc_optimize_servers` over the addresses of a port,
with `addr` as an index, and the sockets created so far. -/
structure Cursor (C : Type) where
  addr : Nat
  i : Nat
  last : Nat
  created : List (Listening C)

/-- One pass of that loop. -/
def optimize_pass (conf_addrs : List (Listen C)) (bind_wildcard : Bool) (s : Cursor C) :
    Result (ControlFlow (Cursor C) (List (Listening C))) :=
  if ¬ s.i < s.last then ok (.done s.created) else
  match conf_addrs[s.addr + s.i]? with
  | none => fault
  | some opt =>
    if bind_wildcard ∧ ¬ opt.bind then ok (.cont { s with i := s.i + 1 })
    else do
      let naddrs := s.i + 1
      let addrs ← add_addrs conf_addrs s.addr naddrs
      let ls : Listening C :=
        ⟨opt.family, opt.type, opt.addr, opt.port, opt.wildcard, naddrs, addrs⟩
      ok (.cont ⟨s.addr + 1, s.i, s.last - 1, s.created ++ [ls]⟩)

/-- `ngx_nsoc_optimize_servers` for one port. -/
def optimize_port (port : ConfPort C) : Result (List (Listening C)) :=
  let conf_addrs := Insertion.sort cmp_conf_addrs port.addrs
  let last := conf_addrs.length
  match conf_addrs[last - 1]? with
  | none => fault
  | some opt =>
    if opt.wildcard then
      let conf_addrs := conf_addrs.set (last - 1) { opt with bind := true }
      loop (optimize_pass conf_addrs true) (last + 1) ⟨0, 0, last, []⟩
    else loop (optimize_pass conf_addrs false) (last + 1) ⟨0, 0, last, []⟩

/-- `ngx_nsoc_optimize_servers`. -/
def optimize_servers : List (ConfPort C) → Result (List (Listening C))
  | [] => ok []
  | port :: ports => do
    let created ← optimize_port port
    let rest ← optimize_servers ports
    ok (created ++ rest)

/-- The end of `ngx_nsoc_block`: the sockets of the `listen` directives. -/
def listening (listen : List (Listen C)) : Result (List (Listening C)) :=
  optimize_servers (listen.foldl add_ports [])

/-- The loop of `ngx_nsoc_init_connection` over the addresses of a port: the index of the
local address, or where the loop ends. -/
def find_addr (addrs : List (InAddr C)) (addr : Nat) : Nat → Nat → Result Nat
  | i, 0 => ok i
  | i, left + 1 =>
    match addrs[i]? with
    | none => fault
    | some entry => if entry.addr = addr then ok i else find_addr addrs addr (i + 1) left

/-- `addrs[i].conf`. -/
def conf_at (addrs : List (InAddr C)) (i : Nat) : Result (AddrConf C) :=
  match addrs[i]? with
  | none => fault
  | some entry => ok entry.conf

/-- The `addr_conf` that `ngx_nsoc_init_connection` selects, with what
`ngx_connection_local_sockaddr` answers: without it the connection is closed. -/
def init_connection (port : Listening C) (local_sockaddr : Option Nat) :
    Result (Option (AddrConf C)) :=
  if 1 < port.naddrs then
    match local_sockaddr with
    | none => ok none
    | some addr => do
      let i ← find_addr port.addrs addr 0 (port.naddrs - 1)
      let conf ← conf_at port.addrs i
      ok (some conf)
  else do
    let conf ← conf_at port.addrs 0
    ok (some conf)

end ngx_nsoc
