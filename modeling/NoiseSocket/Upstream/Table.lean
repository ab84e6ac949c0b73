import NoiseSocket.Upstream.RoundRobin
import NoiseSocket.Variables

open Exec Exec.Result

namespace ngx_nsoc_upstream

open ngx_nsoc
open ngx_nsoc_variables (ngx_strncmp ngx_strncasecmp ngx_strlow)

@[simp] abbrev NGX_NSOC_UPSTREAM_CREATE : Nat := 0x0001
@[simp] abbrev NGX_NSOC_UPSTREAM_WEIGHT : Nat := 0x0002
@[simp] abbrev NGX_NSOC_UPSTREAM_MAX_FAILS : Nat := 0x0004
@[simp] abbrev NGX_NSOC_UPSTREAM_FAIL_TIMEOUT : Nat := 0x0008
@[simp] abbrev NGX_NSOC_UPSTREAM_DOWN : Nat := 0x0010
@[simp] abbrev NGX_NSOC_UPSTREAM_BACKUP : Nat := 0x0020
@[simp] abbrev NGX_NSOC_UPSTREAM_MAX_CONNS : Nat := 0x0100

/-- `ngx_url_t`, behind the parsing of a URL. -/
structure Url where
  host : List UInt8
  port : Nat
  no_port : Bool
  naddrs : Nat
  unix : Bool
deriving DecidableEq, Repr

/-- The functions of the nginx core that the configuration calls: `ngx_parse_url` with its `no_resolve`,
`ngx_inet_resolve_host` with the number of addresses, `ngx_atoi`, and `ngx_parse_time` in seconds. -/
structure Core where
  parse_url : Bool → List UInt8 → Option Url
  inet_resolve_host : List UInt8 → Nat → Option Nat
  atoi : List UInt8 → Option Nat
  parse_time : List UInt8 → Option Nat

/-- A URL without a port has the default port, which is zero here, and a name that has been resolved has
an address. -/
structure Core.Documented (core : Core) : Prop where
  no_port : ∀ resolve url u, core.parse_url resolve url = some u → u.no_port = true → u.port = 0
  resolved : ∀ host port naddrs, core.inet_resolve_host host port = some naddrs → 0 < naddrs

/-- `ngx_nsoc_upstream_srv_conf_t`. -/
structure UpstreamSrvConf where
  servers : Option (List Server)
  flags : Nat
  host : List UInt8
  file_name : List UInt8
  line : Nat
  port : Nat
  no_port : Bool
deriving DecidableEq, Repr

/-- What the configuration is refused for. -/
inductive ConfError where
  | parse_url (url : List UInt8)
  | duplicate_upstream (host : List UInt8)
  | may_not_have_port (host : List UInt8) (port : Nat)
  | may_not_have_port_in (host : List UInt8) (port : Nat) (file_name : List UInt8) (line : Nat)
  | no_servers_inside
  | invalid_parameter (value : List UInt8)
  | not_supported (value : List UInt8)
  | no_port_in_upstream (url : List UInt8)
  | no_servers (host file_name : List UInt8) (line : Nat)
  | no_port (host file_name : List UInt8) (line : Nat)
  | resolve (host file_name : List UInt8) (line : Nat)
deriving DecidableEq, Repr

/-- Two hosts of the same length that `ngx_strncasecmp` does not tell apart. -/
def same_host (host host' : List UInt8) : Prop :=
  host.length = host'.length ∧ ngx_strncasecmp host host' host'.length = 0

instance (host host' : List UInt8) : Decidable (same_host host host') :=
  inferInstanceAs (Decidable (_ ∧ _))

/-- `flags & NGX_NSOC_UPSTREAM_CREATE`. -/
def created (flags : Nat) : Bool := flags &&& NGX_NSOC_UPSTREAM_CREATE ≠ 0

/-- The loop of `ngx_nsoc_upstream_add`, from the upstream at `i` on. -/
def upstream_add_loop (u : Url) (flags : Nat) : Nat → List UpstreamSrvConf → Except ConfError (Option Nat)
  | _, [] => .ok none
  | i, uscf :: rest =>
    if ¬ same_host uscf.host u.host then upstream_add_loop u flags (i + 1) rest
    else if created flags ∧ created uscf.flags then .error (.duplicate_upstream u.host)
    else if created uscf.flags ∧ ¬ u.no_port then .error (.may_not_have_port u.host u.port)
    else if created flags ∧ ¬ uscf.no_port then
      .error (.may_not_have_port_in u.host uscf.port uscf.file_name uscf.line)
    else if uscf.port ≠ u.port then upstream_add_loop u flags (i + 1) rest
    else .ok (some i)

/-- The server of an upstream that is one address: all its other fields are zero. -/
def address_server : Server where
  naddrs := 1
  weight := 0
  max_conns := 0
  max_fails := 0
  fail_timeout := 0
  down := false
  backup := false

/-- A new upstream for `u`. -/
def Url.upstream (u : Url) (flags : Nat) (file_name : List UInt8) (line : Nat) : UpstreamSrvConf where
  servers := if u.naddrs = 1 ∧ (u.port ≠ 0 ∨ u.unix) then some [address_server] else none
  flags := flags
  host := u.host
  file_name := file_name
  line := line
  port := u.port
  no_port := u.no_port

/-- `ngx_nsoc_upstream_add`: the place of the upstream in the array. With the flag
`NGX_NSOC_UPSTREAM_CREATE` the text is a host, and it is a URL otherwise. -/
def upstream_add (core : Core) (text : List UInt8) (flags : Nat) (file_name : List UInt8) (line : Nat)
    (upstreams : List UpstreamSrvConf) : Except ConfError (Nat × List UpstreamSrvConf) :=
  match if created flags then some ⟨text, 0, true, 0, false⟩ else core.parse_url true text with
  | none => .error (.parse_url text)
  | some u =>
    match upstream_add_loop u flags 0 upstreams with
    | .error e => .error e
    | .ok (some i) =>
      .ok (i, if created flags then upstreams.modify i fun uscf => { uscf with flags } else upstreams)
    | .ok none => .ok (upstreams.length, upstreams ++ [u.upstream flags file_name line])

def bytes (text : List Char) : List UInt8 := text.map fun ch => UInt8.ofNat ch.toNat

/-- `ngx_strcmp`. -/
def ngx_strcmp (s₁ s₂ : List UInt8) : Int := ngx_strncmp s₁ s₂ (max s₁.length s₂.length + 1)

/-- One parameter of the `server` directive. -/
def server_param (core : Core) (flags : Nat) (us : Server) (value : List UInt8) : Except ConfError Server :=
  if ngx_strncmp value (bytes ['w', 'e', 'i', 'g', 'h', 't', '=']) 7 = 0 then
    if flags &&& NGX_NSOC_UPSTREAM_WEIGHT = 0 then .error (.not_supported value)
    else
      match core.atoi (value.drop 7) with
      | none => .error (.invalid_parameter value)
      | some weight => if weight = 0 then .error (.invalid_parameter value) else .ok { us with weight }
  else if ngx_strncmp value (bytes ['m', 'a', 'x', '_', 'c', 'o', 'n', 'n', 's', '=']) 10 = 0 then
    if flags &&& NGX_NSOC_UPSTREAM_MAX_CONNS = 0 then .error (.not_supported value)
    else
      match core.atoi (value.drop 10) with
      | none => .error (.invalid_parameter value)
      | some max_conns => .ok { us with max_conns }
  else if ngx_strncmp value (bytes ['m', 'a', 'x', '_', 'f', 'a', 'i', 'l', 's', '=']) 10 = 0 then
    if flags &&& NGX_NSOC_UPSTREAM_MAX_FAILS = 0 then .error (.not_supported value)
    else
      match core.atoi (value.drop 10) with
      | none => .error (.invalid_parameter value)
      | some max_fails => .ok { us with max_fails }
  else if ngx_strncmp value
      (bytes ['f', 'a', 'i', 'l', '_', 't', 'i', 'm', 'e', 'o', 'u', 't', '=']) 13 = 0 then
    if flags &&& NGX_NSOC_UPSTREAM_FAIL_TIMEOUT = 0 then .error (.not_supported value)
    else
      match core.parse_time (value.drop 13) with
      | none => .error (.invalid_parameter value)
      | some fail_timeout => .ok { us with fail_timeout := fail_timeout }
  else if ngx_strcmp value (bytes ['b', 'a', 'c', 'k', 'u', 'p']) = 0 then
    if flags &&& NGX_NSOC_UPSTREAM_BACKUP = 0 then .error (.not_supported value)
    else .ok { us with backup := true }
  else if ngx_strcmp value (bytes ['d', 'o', 'w', 'n']) = 0 then
    if flags &&& NGX_NSOC_UPSTREAM_DOWN = 0 then .error (.not_supported value)
    else .ok { us with down := true }
  else .error (.invalid_parameter value)

/-- The loop of `ngx_nsoc_upstream_server` over the parameters. -/
def server_params (core : Core) (flags : Nat) (us : Server) : List (List UInt8) → Except ConfError Server
  | [] => .ok us
  | value :: values =>
    match server_param core flags us value with
    | .error e => .error e
    | .ok us => server_params core flags us values

/-- `ngx_nsoc_upstream_server`: the directive `server url values`. -/
def upstream_server (core : Core) (flags : Nat) (servers : List Server) (url : List UInt8)
    (values : List (List UInt8)) : Except ConfError (List Server) :=
  match server_params core flags ⟨0, 1, 0, 1, 10, false, false⟩ values with
  | .error e => .error e
  | .ok us =>
    match core.parse_url false url with
    | none => .error (.parse_url url)
    | some u =>
      if u.no_port then .error (.no_port_in_upstream url)
      else .ok (servers ++ [{ us with naddrs := u.naddrs }])

/-- The directives in a block `upstream`. -/
def upstream_servers (core : Core) (flags : Nat) (servers : List Server) :
    List (List UInt8 × List (List UInt8)) → Except ConfError (List Server)
  | [] => .ok servers
  | (url, values) :: block =>
    match upstream_server core flags servers url values with
    | .error e => .error e
    | .ok servers => upstream_servers core flags servers block

/-- The flags of an upstream that a block defines. -/
def block_flags : Nat :=
  NGX_NSOC_UPSTREAM_CREATE ||| NGX_NSOC_UPSTREAM_WEIGHT ||| NGX_NSOC_UPSTREAM_MAX_CONNS |||
    NGX_NSOC_UPSTREAM_MAX_FAILS ||| NGX_NSOC_UPSTREAM_FAIL_TIMEOUT ||| NGX_NSOC_UPSTREAM_DOWN |||
    NGX_NSOC_UPSTREAM_BACKUP

/-- `ngx_nsoc_upstream`: a block `upstream`. -/
def upstream (core : Core) (host : List UInt8) (block : List (List UInt8 × List (List UInt8)))
    (file_name : List UInt8) (line : Nat) (upstreams : List UpstreamSrvConf) :
    Except ConfError (List UpstreamSrvConf) :=
  match upstream_add core host block_flags file_name line upstreams with
  | .error e => .error e
  | .ok (i, upstreams) =>
    match upstream_servers core block_flags [] block with
    | .error e => .error e
    | .ok servers =>
      if servers.length = 0 then .error .no_servers_inside
      else .ok (upstreams.modify i fun uscf => { uscf with servers := some servers })

/-- `ngx_nsoc_upstream_init_round_robin`. -/
def upstream_init_round_robin (core : Core) (us : UpstreamSrvConf) : Except ConfError Upstream :=
  match us.servers with
  | some servers =>
    match init_round_robin servers with
    | none => .error (.no_servers us.host us.file_name us.line)
    | some peers => .ok peers
  | none =>
    if us.port = 0 then .error (.no_port us.host us.file_name us.line)
    else
      match core.inet_resolve_host us.host us.port with
      | none => .error (.resolve us.host us.file_name us.line)
      | some naddrs => .ok (implicit_round_robin naddrs)

/-- `ngx_nsoc_upstream_init_main_conf`: the peers of each upstream. -/
def upstream_init_main_conf (core : Core) : List UpstreamSrvConf → Except ConfError (List Upstream)
  | [] => .ok []
  | us :: rest =>
    match upstream_init_round_robin core us with
    | .error e => .error e
    | .ok peers =>
      match upstream_init_main_conf core rest with
      | .error e => .error e
      | .ok all => .ok (peers :: all)

/-- The loop of `ngx_nsoc_proxy_handler`: the upstream that the value of `proxy_pass` names. -/
def find_upstream (upstreams : List UpstreamSrvConf) (resolved : Url) : Option Nat :=
  upstreams.findIdx? fun uscf =>
    uscf.host.length = resolved.host.length ∧
      ((uscf.port = 0 ∧ resolved.no_port) ∨ uscf.port = resolved.port) ∧
      ngx_strncasecmp uscf.host resolved.host resolved.host.length = 0

/-- The upstreams so far, and for each `proxy_pass` without variables its URL with the place of the
upstream that `pscf->upstream` points to. -/
structure Configuration where
  upstreams : List UpstreamSrvConf
  passes : List (List UInt8 × Nat)

/-- The configurations that the directives lead to, in any order, as long as none is refused. -/
inductive Configures (core : Core) : Configuration → Prop where
  | init : Configures core ⟨[], []⟩
  | upstream {conf : Configuration} {host : List UInt8}
      {block : List (List UInt8 × List (List UInt8))} {file_name : List UInt8} {line : Nat}
      {upstreams : List UpstreamSrvConf} (h : Configures core conf)
      (hblock : upstream core host block file_name line conf.upstreams = .ok upstreams) :
      Configures core { conf with upstreams }
  | proxy_pass {conf : Configuration} {url file_name : List UInt8} {line i : Nat}
      {upstreams : List UpstreamSrvConf} (h : Configures core conf)
      (hadd : upstream_add core url 0 file_name line conf.upstreams = .ok (i, upstreams)) :
      Configures core ⟨upstreams, conf.passes ++ [(url, i)]⟩

end ngx_nsoc_upstream
