import NoiseSocket.Proxy.Tries.Run
import NoiseSocket.Upstream.Alike
import NoiseSocket.Upstream.Table

open Exec Exec.Result

namespace ngx_nsoc_proxy

open ngx_nsoc ngx_nsoc_upstream

variable {S : Type}

/-- A `struct sockaddr`. -/
inductive SockAddr where
  | inet (addr port : Nat)
  | inet6 (addr port : Nat)
  | unix (path : List UInt8)
deriving DecidableEq, Repr

def SockAddr.is_unix : SockAddr → Bool
  | .unix _ => true
  | _ => false

/-- `ngx_inet_set_port`. -/
def SockAddr.set_port (port : Nat) : SockAddr → SockAddr
  | .inet addr _ => .inet addr port
  | .inet6 addr _ => .inet6 addr port
  | .unix path => .unix path

/-- `ngx_nsoc_upstream_resolved_t`: the URL, the address that it is instead of a name, the addresses
that the resolver has found for the name, and whether the resolver is still looking for them. -/
structure Resolved where
  url : Url
  sockaddr : Option SockAddr
  addrs : List SockAddr
  ctx : Bool
deriving DecidableEq, Repr

/-- The addresses of the peers that are made of `ur`. -/
def Resolved.addresses (ur : Resolved) : List SockAddr :=
  match ur.sockaddr with
  | some sockaddr => [sockaddr]
  | none => ur.addrs.map (SockAddr.set_port ur.url.port)

/-- The blocks that the peers for `ur` take: the state of the session, the list and its array, a copy
of each address that was found and its text, and the bits, if they do not fit into a word. -/
def Resolved.blocks (ur : Resolved) : Nat :=
  3 + (if ur.sockaddr.isSome then 0 else 2 * ur.addresses.length) +
    (if ur.addresses.length ≤ 64 then 0 else 1)

/-- No peers at all. -/
def no_peers : Upstream := ⟨⟨false, []⟩, none⟩

/-- How `ngx_resolve_start` and `ngx_resolve_name` begin with a name. -/
inductive ResolverStart where
  | error
  | no_resolver
  | refused
  | started
deriving DecidableEq, Repr

/-- What a session finds when it is handled: what `ngx_nsoc_proxy_set_local` answers, the value of
`proxy_pass`, if it can be built, the parser of URLs, which does not resolve names, and the resolver. -/
structure Surroundings where
  set_local : Bool
  value : Option (List UInt8)
  parse_url : List UInt8 → Option (Url × Option SockAddr)
  resolver : ResolverStart

/-- A session of which the upstream is a value: the call it stands at, the peers that it has to
itself, `u->resolved`, and how many names were given to the resolver and how many of these lookups
have come to their end. -/
structure Dynamic (S : Type) where
  call : Call
  proxy : Proxy S
  us : Upstream
  resolved : Option Resolved
  started : Nat
  done : Nat

/-- What becomes of a session that is handled: it goes on with the peers of a configured upstream,
which it shares with others, or with peers of its own. -/
inductive Handled (S : Type) where
  | upstream (i : Nat) (s : Proxy S)
  | dynamic (d : Dynamic S)

namespace Proxy

/-- Allocations from the pool of the session, up to the first that fails. -/
def ngx_allocs : Nat → Proxy S → Bool × Proxy S
  | 0, s => (true, s)
  | n + 1, s => if s.ngx_alloc.1 then s.ngx_alloc.2.ngx_allocs n else (false, s.ngx_alloc.2)

/-- `ngx_nsoc_upstream_create_round_robin_peer` in a session that has no peers yet. -/
def create_round_robin_peer (ur : Resolved) (s : Proxy S) : Int × Upstream × Proxy S :=
  let allocated := s.ngx_allocs ur.blocks
  if ¬ allocated.1 then (NGX_ERROR, no_peers, allocated.2) else
  let us := implicit_round_robin ur.addresses.length
  (NGX_OK, us, { allocated.2 with peer := init_round_robin_peer us })

/-- `ngx_nsoc_proxy_eval`. -/
def proxy_eval (core : Surroundings) (s : Proxy S) : Option Resolved × Proxy S :=
  match core.value with
  | none => (none, s)
  | some host =>
    match core.parse_url host with
    | none => (none, s)
    | some (url, sockaddr) =>
      let allocated := s.ngx_alloc
      if ¬ allocated.1 then (none, allocated.2) else (some ⟨url, sockaddr, [], false⟩, allocated.2)

/-- A session that comes to its end without peers. -/
def refuse (ur : Option Resolved) (s : Proxy S) : Dynamic S := ⟨.finalize, s, no_peers, ur, 0, 0⟩

/-- `ngx_nsoc_proxy_handler` behind the search among the configured upstreams. -/
def proxy_resolve (core : Surroundings) (ur : Resolved) (s : Proxy S) : Dynamic S :=
  match ur.sockaddr with
  | some sockaddr =>
    if ur.url.port = 0 ∧ ¬ sockaddr.is_unix then s.refuse (some ur) else
    let created := s.create_round_robin_peer ur
    if created.1 ≠ NGX_OK then created.2.2.refuse (some ur)
    else ⟨.connect, created.2.2, created.2.1, some ur, 0, 0⟩
  | none =>
    if ur.url.port = 0 then s.refuse (some ur) else
    match core.resolver with
    | .error => s.refuse (some ur)
    | .no_resolver => s.refuse (some ur)
    | .refused => { s.refuse (some ur) with started := 1, done := 1 }
    | .started => ⟨.waiting, s, no_peers, some { ur with ctx := true }, 1, 0⟩

/-- `ngx_nsoc_proxy_handler` behind the allocation of the `ngx_nsoc_upstream_t`, with a `proxy_pass`
that is a value. -/
def proxy_handler_value (upstreams : List UpstreamSrvConf) (core : Surroundings) (s : Proxy S) :
    Handled S :=
  if ¬ core.set_local then .dynamic (s.refuse none) else
  let states := s.ngx_alloc
  if ¬ states.1 then .dynamic (states.2.refuse none) else
  let buf := if s.stream then states.2.ngx_alloc else (true, states.2)
  if ¬ buf.1 then .dynamic (buf.2.refuse none) else
  let eval := buf.2.proxy_eval core
  match eval.1 with
  | none => .dynamic (eval.2.refuse none)
  | some ur =>
    match find_upstream upstreams ur.url with
    | some i => .upstream i { eval.2 with notify := true }
    | none => .dynamic (eval.2.proxy_resolve core ur)

end Proxy

namespace Dynamic

/-- Whether the resolver is looking for the addresses. -/
def looking (d : Dynamic S) : Bool := d.resolved.any Resolved.ctx

def addresses (d : Dynamic S) : List SockAddr := (d.resolved.map Resolved.addresses).getD []

/-- The addresses that the session has tried to connect to, in this order. -/
def tried (d : Dynamic S) : List (Option SockAddr) :=
  d.proxy.attempts.reverse.map fun at_ => d.addresses[at_.2]?

/-- `ngx_nsoc_proxy_resolve_handler`: the name has no addresses, or it has these. -/
def resolve_handler (answer : Option (List SockAddr)) (d : Dynamic S) : Result (Dynamic S) :=
  match d.resolved with
  | none => fault
  | some ur =>
    match answer with
    | none => ok { d with call := .finalize }
    | some addrs =>
      let ur := { ur with addrs }
      let created := d.proxy.create_round_robin_peer ur
      if created.1 ≠ NGX_OK then
        ok { d with call := .finalize, proxy := created.2.2, resolved := some ur }
      else
        let s := created.2.2
        ok { d with
          call := .connect
          proxy := { s with peer := { s.peer with tries := Proxy.SrvConf.tries s.conf s.peer.tries } }
          us := created.2.1
          resolved := some { ur with ctx := false }
          done := d.done + 1 }

/-- The part of `ngx_nsoc_proxy_finalize` that gives up a lookup. -/
def release (d : Dynamic S) : Dynamic S :=
  if d.looking then
    { d with resolved := d.resolved.map fun ur => { ur with ctx := false }, done := d.done + 1 }
  else d

/-- The session behind the call that it stood at. -/
def put (d : Dynamic S) (us : Upstream) (x : Call × Proxy S) : Dynamic S :=
  { (if d.call = .finalize then d.release else d) with call := x.1, proxy := x.2, us }

/-- The states of a session with peers of its own. While the resolver looks for them there is no
upstream to hear of, and no timer of the client but one that delays it; what the resolver finds are
addresses. -/
inductive Reachable (N : NoiseC S) (upstreams : List UpstreamSrvConf) (core : Surroundings)
    (s₀ : Proxy S) : Dynamic S → Prop where
  | handled {d : Dynamic S} (h : s₀.proxy_handler_value upstreams core = .dynamic d) :
      Reachable N upstreams core s₀ d
  | called {d : Dynamic S} {us' : Upstream} {x' : Call × Proxy S} (h : Reachable N upstreams core s₀ d)
      (hcall : CallStep N d.us (d.call, d.proxy) us' x') : Reachable N upstreams core s₀ (d.put us' x')
  | event {d : Dynamic S} {x' : Call × Proxy S} (h : Reachable N upstreams core s₀ d)
      (hwaiting : d.call = .waiting) (hlooking : d.looking = false) (hevent : EventStep N d.proxy x') :
      Reachable N upstreams core s₀ (d.put d.us x')
  | downstream_handler {d : Dynamic S} (h : Reachable N upstreams core s₀ d)
      (hwaiting : d.call = .waiting) (hlooking : d.looking = true) (ev : Proxy.ProxyEvent)
      (htimer : ev.timedout = true → ev.delayed = true) :
      Reachable N upstreams core s₀ { d with call := d.proxy.process_connection ev ev.write }
  | disturbed {d : Dynamic S} (h : Reachable N upstreams core s₀ d) (hwaiting : d.call = .waiting)
      (hlooking : d.looking = true) (read write : ngx_nsoc.Event → ngx_nsoc.Event)
      (prologue : PrologueData) (mem : Memory) (env : Env) :
      Reachable N upstreams core s₀ { d with proxy := d.proxy.disturb read write prologue mem env }
  | resolve_handler {d d' : Dynamic S} (h : Reachable N upstreams core s₀ d)
      (hwaiting : d.call = .waiting) (hlooking : d.looking = true) {answer : Option (List SockAddr)}
      (haddrs : answer ≠ some []) (hanswer : d.resolve_handler answer = ok d') :
      Reachable N upstreams core s₀ d'

end Dynamic

end ngx_nsoc_proxy
