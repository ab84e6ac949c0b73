import NoiseSocket.Listen
import NoiseSocket.Upstream.Table

namespace ngx_nsoc

open ngx_nsoc_variables (ngx_strncmp)
open ngx_nsoc_upstream (bytes ngx_strcmp)

/-- `ngx_url_t`, behind the parsing of the address of a `listen` directive. -/
structure ListenUrl where
  family : Family
  addr : Nat
  port : Nat
  wildcard : Bool
deriving DecidableEq, Repr

/-- What `ngx_nsoc_core_listen` has from the nginx core: `ngx_parse_url` with `listen`, `ngx_atoi`,
`ngx_parse_time` in seconds, and the `NGX_LISTEN_BACKLOG` of the platform. -/
structure ListenCore where
  parse_url : List UInt8 → Option ListenUrl
  atoi : List UInt8 → Option Nat
  parse_time : List UInt8 → Option Nat
  NGX_LISTEN_BACKLOG : Int

/-- A wildcard is the address `INADDR_ANY` or `in6addr_any`. -/
def ListenCore.Documented (core : ListenCore) : Prop :=
  ∀ url u, core.parse_url url = some u → u.wildcard = true → u.addr = INADDR_ANY

/-- `ngx_nsoc_listen_t`, with the options of its socket. -/
structure ListenOpt (C : Type) extends Listen C where
  ipv6only : Bool
  reuseport : Bool
  so_keepalive : Nat
  proxy_protocol : Bool
  tcp_keepidle : Int
  tcp_keepintvl : Int
  tcp_keepcnt : Int
  backlog : Int
deriving DecidableEq, Repr

/-- What a directive is refused for. -/
inductive ListenError where
  | parse_url (url : List UInt8)
  | invalid_backlog (value : List UInt8)
  | invalid_ipv6only (flags : List UInt8)
  | invalid_so_keepalive (value : List UInt8)
  | invalid_parameter (value : List UInt8)
  | udp_backlog
  | udp_noise
  | udp_so_keepalive
  | udp_proxy_protocol
  | duplicate (url : List UInt8)
deriving DecidableEq, Repr

variable {C : Type}

/-- A `listen` directive: the server that it stands in, its address and its parameters. -/
structure ListenDirective (C : Type) where
  ctx : C
  url : List UInt8
  values : List (List UInt8)

/-- An `int` with the answer of `ngx_atoi` or `ngx_parse_time`, where `none` is `NGX_ERROR`. -/
def to_int (answer : Option Nat) : Int := answer.elim (-1) fun n => Int.bmod n (2 ^ 32)

/-- One part of the value of `so_keepalive`. A part that is empty leaves the field as it is. -/
def keepalive_part (parse : List UInt8 → Option Nat) (part : List UInt8) (field : Int) : Option Int :=
  if part = [] then some field
  else if to_int (parse part) = -1 then none
  else some (to_int (parse part))

/-- The text up to the next `:`, and the text behind it. -/
def at_colon (text : List UInt8) : List UInt8 × List UInt8 :=
  (text.takeWhile (· ≠ 58), (text.dropWhile (· ≠ 58)).tail)

/-- The value `keepidle:keepintvl:keepcnt` of `so_keepalive`, without what is refused. -/
def tcp_keepalive (core : ListenCore) (ls : ListenOpt C) (text : List UInt8) : Option (ListenOpt C) :=
  let (keepidle, rest) := at_colon text
  let (keepintvl, keepcnt) := at_colon rest
  match keepalive_part core.parse_time keepidle ls.tcp_keepidle with
  | none => none
  | some tcp_keepidle =>
    match keepalive_part core.parse_time keepintvl ls.tcp_keepintvl with
    | none => none
    | some tcp_keepintvl =>
      match keepalive_part core.atoi keepcnt ls.tcp_keepcnt with
      | none => none
      | some tcp_keepcnt =>
        if tcp_keepidle = 0 ∧ tcp_keepintvl = 0 ∧ tcp_keepcnt = 0 then none
        else some { ls with tcp_keepidle, tcp_keepintvl, tcp_keepcnt, so_keepalive := 1 }

/-- The variables `ls` and `backlog` of `ngx_nsoc_core_listen`. -/
structure ListenParams (C : Type) where
  ls : ListenOpt C
  backlog : Bool

/-- One parameter of the directive. -/
def listen_param (core : ListenCore) (s : ListenParams C) (value : List UInt8) :
    Except ListenError (ListenParams C) :=
  if ngx_strcmp value (bytes ['u', 'd', 'p']) = 0 then
    .ok { s with ls := { s.ls with type := .dgram } }
  else if ngx_strcmp value (bytes ['b', 'i', 'n', 'd']) = 0 then
    .ok { s with ls := { s.ls with bind := true } }
  else if ngx_strncmp value (bytes ['b', 'a', 'c', 'k', 'l', 'o', 'g', '=']) 8 = 0 then
    let backlog := to_int (core.atoi (value.drop 8))
    if backlog = -1 ∨ backlog = 0 then .error (.invalid_backlog value)
    else .ok ⟨{ s.ls with backlog, bind := true }, true⟩
  else if ngx_strncmp value (bytes ['i', 'p', 'v', '6', 'o', 'n', 'l', 'y', '=', 'o']) 10 = 0 then
    -- For an address that is not one of IPv6 the parameter is logged and ignored.
    if s.ls.family ≠ .inet6 then .ok s
    else if ngx_strcmp (value.drop 10) (bytes ['n']) = 0 then
      .ok { s with ls := { s.ls with ipv6only := true, bind := true } }
    else if ngx_strcmp (value.drop 10) (bytes ['f', 'f']) = 0 then
      .ok { s with ls := { s.ls with ipv6only := false, bind := true } }
    else .error (.invalid_ipv6only (value.drop 9))
  else if ngx_strcmp value (bytes ['r', 'e', 'u', 's', 'e', 'p', 'o', 'r', 't']) = 0 then
    .ok { s with ls := { s.ls with reuseport := true, bind := true } }
  else if ngx_strcmp value (bytes ['n', 'o', 'i', 's', 'e']) = 0 then
    .ok { s with ls := { s.ls with noise_on := true } }
  else if ngx_strncmp value
      (bytes ['s', 'o', '_', 'k', 'e', 'e', 'p', 'a', 'l', 'i', 'v', 'e', '=']) 13 = 0 then
    if ngx_strcmp (value.drop 13) (bytes ['o', 'n']) = 0 then
      .ok { s with ls := { s.ls with so_keepalive := 1, bind := true } }
    else if ngx_strcmp (value.drop 13) (bytes ['o', 'f', 'f']) = 0 then
      .ok { s with ls := { s.ls with so_keepalive := 2, bind := true } }
    else
      match tcp_keepalive core s.ls (value.drop 13) with
      | none => .error (.invalid_so_keepalive (value.drop 13))
      | some ls => .ok { s with ls := { ls with bind := true } }
  else if ngx_strcmp value
      (bytes ['p', 'r', 'o', 'x', 'y', '_', 'p', 'r', 'o', 't', 'o', 'c', 'o', 'l']) = 0 then
    .ok { s with ls := { s.ls with proxy_protocol := true } }
  else .error (.invalid_parameter value)

/-- The loop of `ngx_nsoc_core_listen` over the parameters. -/
def listen_params (core : ListenCore) (s : ListenParams C) :
    List (List UInt8) → Except ListenError (ListenParams C)
  | [] => .ok s
  | value :: values =>
    match listen_param core s value with
    | .error e => .error e
    | .ok s => listen_params core s values

/-- The `ls` that the parameters start from. -/
def ListenUrl.opt (core : ListenCore) (u : ListenUrl) (ctx : C) : ListenOpt C where
  family := u.family
  type := .stream
  addr := u.addr
  port := u.port
  ctx := ctx
  bind := false
  wildcard := u.wildcard
  noise_on := false
  ipv6only := true
  reuseport := false
  so_keepalive := 0
  proxy_protocol := false
  tcp_keepidle := 0
  tcp_keepintvl := 0
  tcp_keepcnt := 0
  backlog := core.NGX_LISTEN_BACKLOG

/-- `ngx_nsoc_core_listen` with the text of the directive. -/
def core_listen_directive (core : ListenCore) (listen : List (ListenOpt C)) (d : ListenDirective C) :
    Except ListenError (List (ListenOpt C)) :=
  match core.parse_url d.url with
  | none => .error (.parse_url d.url)
  | some u =>
    match listen_params core ⟨u.opt core d.ctx, false⟩ d.values with
    | .error e => .error e
    | .ok s =>
      if s.ls.type = .dgram ∧ s.backlog then .error .udp_backlog
      else if s.ls.type = .dgram ∧ s.ls.noise_on then .error .udp_noise
      else if s.ls.type = .dgram ∧ s.ls.so_keepalive ≠ 0 then .error .udp_so_keepalive
      else if s.ls.type = .dgram ∧ s.ls.proxy_protocol then .error .udp_proxy_protocol
      else if ∃ als ∈ listen, als.toListen.same s.ls.toListen then .error (.duplicate d.url)
      else .ok (listen ++ [s.ls])

/-- The `listen` directives of a configuration, in their order. -/
def core_listen_directives (core : ListenCore) (listen : List (ListenOpt C)) :
    List (ListenDirective C) → Except ListenError (List (ListenOpt C))
  | [] => .ok listen
  | d :: directives =>
    match core_listen_directive core listen d with
    | .error e => .error e
    | .ok listen => core_listen_directives core listen directives

end ngx_nsoc
