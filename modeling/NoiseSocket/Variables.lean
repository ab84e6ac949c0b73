import NoiseSocket.Lib.Result
import NoiseSocket.Nginx

open Exec Exec.Result

namespace ngx_nsoc_variables

open ngx_nsoc

abbrev NGX_NSOC_VAR_CHANGEABLE : UInt64 := 1
abbrev NGX_NSOC_VAR_NOCACHEABLE : UInt64 := 2
abbrev NGX_NSOC_VAR_INDEXED : UInt64 := 4
abbrev NGX_NSOC_VAR_NOHASH : UInt64 := 8
abbrev NGX_NSOC_VAR_WEAK : UInt64 := 16
abbrev NGX_NSOC_VAR_PREFIX : UInt64 := 32

/-- `ngx_tolower`. -/
def ngx_tolower (c : UInt8) : UInt8 := if 65 ≤ c ∧ c ≤ 90 then c ||| 32 else c

/-- `ngx_strlow`. -/
def ngx_strlow (name : List UInt8) : List UInt8 := name.map ngx_tolower

/-- `ngx_strncmp`: the difference of the first two bytes that are not the same, among the first `n`
and up to a zero byte. -/
def ngx_strncmp : List UInt8 → List UInt8 → Nat → Int
  | _, _, 0 => 0
  | s₁, s₂, n + 1 =>
    if s₁.headD 0 ≠ s₂.headD 0 then (s₁.headD 0).toNat - (s₂.headD 0).toNat
    else if s₁.headD 0 = 0 then 0
    else ngx_strncmp s₁.tail s₂.tail n

/-- `ngx_strncasecmp`. -/
def ngx_strncasecmp (s₁ s₂ : List UInt8) (n : Nat) : Int :=
  ngx_strncmp (ngx_strlow s₁) (ngx_strlow s₂) n

/-- The `data` of a variable: what its module has put there, or the address of a name. -/
inductive VariableData where
  | word (data : Nat)
  | name (name : List UInt8)
deriving DecidableEq, Repr

/-- `ngx_nsoc_variable_t`. `H` is the type of the handlers. -/
structure Variable (H : Type) where
  name : List UInt8
  get_handler : Option H
  data : VariableData
  flags : UInt64
  index : Nat
deriving DecidableEq, Repr

/-- `ngx_nsoc_variable_value_t`. -/
structure Value where
  data : List UInt8
  valid : Bool
  no_cacheable : Bool
  not_found : Bool
deriving DecidableEq, Repr

/-- The variables of `ngx_nsoc_core_main_conf_t`, the array `variables` first. `variables_keys` is
there until the hash is built, which finds the variables by their names. -/
structure MainConf (H : Type) where
  indexed : List (Variable H)
  prefix_variables : List (Variable H)
  variables_keys : Option (List (Variable H))
  variables_hash : List (Variable H)
deriving DecidableEq, Repr

/-- Why the configuration is refused. -/
inductive ConfError where
  | invalid_name
  | duplicate (name : List UInt8)
  | conflicting (name : List UInt8)
  | unknown (name : List UInt8)
  | no_memory
deriving DecidableEq, Repr

section

variable {H : Type}

/-- A variable as it is registered. -/
def Variable.new (name : List UInt8) (flags : UInt64) : Variable H where
  name := ngx_strlow name
  get_handler := none
  data := .word 0
  flags := flags
  index := 0

/-- The first variable of the same name but for case, with its place. -/
def find_registered (name : List UInt8) (registered : List (Variable H)) : Option (Variable H × Nat) :=
  registered.zipIdx.find? fun v =>
    name.length = v.1.name.length ∧ ngx_strncasecmp name v.1.name name.length = 0

/-- A variable that is registered once more: its flags are combined, if it is changeable. -/
def change_variable (registered : List (Variable H)) (v : Variable H) (i : Nat) (name : List UInt8)
    (flags : UInt64) : Except ConfError (List (Variable H) × Nat) :=
  if v.flags &&& NGX_NSOC_VAR_CHANGEABLE = 0 then .error (.duplicate name)
  else
    .ok (registered.set i { v with flags := v.flags &&& (flags ||| ~~~NGX_NSOC_VAR_WEAK) }, i)

/-- `ngx_nsoc_add_prefix_variable`, with the place of the variable it returns. -/
def add_prefix_variable (memory : Bool) (prefix_variables : List (Variable H)) (name : List UInt8)
    (flags : UInt64) : Except ConfError (List (Variable H) × Nat) :=
  match find_registered name prefix_variables with
  | some (v, i) => change_variable prefix_variables v i name flags
  | none =>
    if memory then .ok (prefix_variables ++ [.new name flags], prefix_variables.length)
    else .error .no_memory

/-- `ngx_nsoc_add_variable`; `rc` is what `ngx_hash_add_key` returns. -/
def add_variable (memory : Bool) (rc : Int) (cmcf : MainConf H) (name : List UInt8)
    (flags : UInt64) : Result (Except ConfError (MainConf H × Nat)) :=
  if name.length = 0 then ok (.error .invalid_name)
  else if flags &&& NGX_NSOC_VAR_PREFIX ≠ 0 then
    match add_prefix_variable memory cmcf.prefix_variables name flags with
    | .error e => ok (.error e)
    | .ok (prefix_variables, i) => ok (.ok ({ cmcf with prefix_variables }, i))
  else
    match cmcf.variables_keys with
    | none => fault
    | some keys =>
      match find_registered name keys with
      | some (v, i) =>
        match change_variable keys v i name flags with
        | .error e => ok (.error e)
        | .ok (keys, i) => ok (.ok ({ cmcf with variables_keys := some keys }, i))
      | none =>
        if ¬memory ∨ rc = NGX_ERROR then ok (.error .no_memory)
        else if rc = NGX_BUSY then ok (.error (.conflicting name))
        else ok (.ok ({ cmcf with variables_keys := some (keys ++ [.new name flags]) }, keys.length))

/-- `ngx_nsoc_get_variable_index`. -/
def get_variable_index (memory : Bool) (cmcf : MainConf H) (name : List UInt8) :
    Except ConfError (MainConf H × Nat) :=
  if name.length = 0 then .error .invalid_name
  else
    match find_registered name cmcf.indexed with
    | some (_, i) => .ok (cmcf, i)
    | none =>
      if memory then
        let v : Variable H := { Variable.new name 0 with index := cmcf.indexed.length }
        .ok ({ cmcf with indexed := cmcf.indexed ++ [v] }, cmcf.indexed.length)
      else .error .no_memory

/-- The loop over the prefix variables in `ngx_nsoc_variables_init_vars`, with `len` and the
place of `av`. -/
def init_vars_loop (name : List UInt8) :
    List (Variable H) → Nat → Nat → Option Nat → Option Nat
  | [], _, _, av => av
  | pv :: rest, n, len, av =>
    if pv.name.length ≤ name.length ∧ len < name.length ∧
        ngx_strncmp name pv.name pv.name.length = 0 then
      init_vars_loop name rest (n + 1) pv.name.length (some n)
    else init_vars_loop name rest (n + 1) len av

/-- The prefix variable that `ngx_nsoc_variables_init_vars` chooses. -/
def init_prefix_variable (name : List UInt8) (prefix_variables : List (Variable H)) : Option Nat :=
  init_vars_loop name prefix_variables 0 0 none

/-- The handler of an indexed variable that no variable has set, from a prefix variable. -/
def init_prefix_var (prefix_variables : List (Variable H)) (v : Variable H) :
    Except ConfError (Variable H) :=
  match (init_prefix_variable v.name prefix_variables).bind fun n => prefix_variables[n]? with
  | some av =>
    .ok { v with get_handler := av.get_handler, data := .name v.name, flags := av.flags }
  | none => if v.get_handler.isNone then .error (.unknown v.name) else .ok v

/-- One pass of the loop over the indexed variables. The variable of the same name learns the index;
where it has no handler or is weak, the prefix variables come after it. -/
def init_var (prefix_variables : List (Variable H)) (i : Nat) (v : Variable H)
    (keys : List (Variable H)) : Except ConfError (Variable H × List (Variable H)) :=
  match keys.zipIdx.find? fun key =>
      v.name.length = key.1.name.length ∧ ngx_strncmp v.name key.1.name v.name.length = 0 with
  | some (av, n) =>
    let flags := av.flags ||| NGX_NSOC_VAR_INDEXED
    let keys := keys.set n { av with flags, index := i }
    let v := { v with get_handler := av.get_handler, data := av.data, flags }
    if av.get_handler.isNone ∨ flags &&& NGX_NSOC_VAR_WEAK ≠ 0 then
      (init_prefix_var prefix_variables v).map fun v => (v, keys)
    else .ok (v, keys)
  | none => (init_prefix_var prefix_variables v).map fun v => (v, keys)

/-- The loop over the indexed variables. -/
def init_indexed (prefix_variables : List (Variable H)) (i : Nat) :
    List (Variable H) → List (Variable H) →
      Except ConfError (List (Variable H) × List (Variable H))
  | [], keys => .ok ([], keys)
  | v :: rest, keys => do
    let r ← init_var prefix_variables i v keys
    let rest ← init_indexed prefix_variables (i + 1) rest r.2
    .ok (r.1 :: rest.1, rest.2)

/-- `ngx_nsoc_variables_init_vars`; `rc` is what `ngx_hash_init` returns. -/
def variables_init_vars (rc : Int) (cmcf : MainConf H) : Result (Except ConfError (MainConf H)) :=
  match cmcf.variables_keys with
  | none => fault
  | some keys =>
    match init_indexed cmcf.prefix_variables 0 cmcf.indexed keys with
    | .error e => ok (.error e)
    | .ok (indexed, keys) =>
      if rc ≠ NGX_OK then ok (.error .no_memory)
      else
        ok (.ok { cmcf with
          indexed, variables_keys := none
          variables_hash := keys.filter fun key => key.flags &&& NGX_NSOC_VAR_NOHASH = 0 })

end

/-- The values `s->variables` of `ngx_nsoc_session_t`, `ngx_nsoc_variable_depth`, and what else
the handlers see and change. -/
structure Session (S : Type) where
  values : List Value
  variable_depth : Nat
  rest : S
deriving DecidableEq, Repr

/-- What the handlers do: the return value, the value they have written, and the session. -/
abbrev Call (H S : Type) := H → VariableData → Value → Session S → Int × Value × Session S

section

variable {H S : Type}

/-- A handler called one level deeper. -/
def Session.call_deeper (call : Call H S) (v : Variable H) (vv : Value) (s : Session S) :
    Result (Int × Value × Session S) :=
  match v.get_handler with
  | none => fault
  | some h =>
    let r := call h v.data vv { s with variable_depth := s.variable_depth - 1 }
    ok (r.1, r.2.1, { r.2.2 with variable_depth := r.2.2.variable_depth + 1 })

/-- `ngx_nsoc_get_indexed_variable`. -/
def get_indexed_variable (call : Call H S) (cmcf : MainConf H) (s : Session S) (index : Nat) :
    Result (Option Value × Session S) :=
  if cmcf.indexed.length ≤ index then ok (none, s)
  else
    match s.values[index]?, cmcf.indexed[index]? with
    | some vv, some v =>
      if vv.not_found ∨ vv.valid then ok (some vv, s)
      else if s.variable_depth = 0 then ok (none, s)
      else do
        let (rc, vv, s) ← s.call_deeper call v vv
        if rc = NGX_OK then
          let vv :=
            if v.flags &&& NGX_NSOC_VAR_NOCACHEABLE ≠ 0 then { vv with no_cacheable := true } else vv
          ok (some vv, { s with values := s.values.set index vv })
        else
          let vv := { vv with valid := false, not_found := true }
          ok (none, { s with values := s.values.set index vv })
    | _, _ => fault

/-- `ngx_nsoc_get_flushed_variable`. -/
def get_flushed_variable (call : Call H S) (cmcf : MainConf H) (s : Session S) (index : Nat) :
    Result (Option Value × Session S) :=
  match s.values[index]? with
  | none => fault
  | some v =>
    if v.valid ∨ v.not_found then
      if v.no_cacheable then
        let v := { v with valid := false, not_found := false }
        get_indexed_variable call cmcf { s with values := s.values.set index v } index
      else ok (some v, s)
    else get_indexed_variable call cmcf s index

/-- The loop over the prefix variables in `ngx_nsoc_get_variable`, with `len` and `n`. -/
def get_variable_loop (name : List UInt8) : List (Variable H) → Nat → Nat → Nat → Nat
  | [], _, _, n => n
  | v :: rest, i, len, n =>
    if v.name.length ≤ name.length ∧ len < name.length ∧
        ngx_strncmp name v.name v.name.length = 0 then
      get_variable_loop name rest (i + 1) v.name.length i
    else get_variable_loop name rest (i + 1) len n

/-- The prefix variable that `ngx_nsoc_get_variable` chooses; their number stands for none. -/
def get_prefix_variable (name : List UInt8) (prefix_variables : List (Variable H)) : Option Nat :=
  let n := get_variable_loop name prefix_variables 0 0 prefix_variables.length
  if n ≠ prefix_variables.length then some n else none

/-- `ngx_nsoc_get_variable`; `alloc` is what `ngx_palloc` gives for the value. -/
def get_variable (call : Call H S) (alloc : Option Value) (cmcf : MainConf H) (s : Session S)
    (name : List UInt8) : Result (Option Value × Session S) :=
  match cmcf.variables_hash.find? fun v => v.name = name with
  | some v =>
    if v.flags &&& NGX_NSOC_VAR_INDEXED ≠ 0 then get_flushed_variable call cmcf s v.index
    else if s.variable_depth = 0 then ok (none, s)
    else
      match alloc with
      | none => ok (none, s)
      | some vv => do
        let (rc, vv, s) ← s.call_deeper call v vv
        if rc = NGX_OK then ok (some vv, s) else ok (none, s)
  | none =>
    match alloc with
    | none => ok (none, s)
    | some vv =>
      match get_prefix_variable name cmcf.prefix_variables with
      | none => ok (some { vv with not_found := true }, s)
      | some n =>
        match cmcf.prefix_variables[n]?.bind fun v => v.get_handler with
        | none => fault
        | some h =>
          let r := call h (.name name) vv s
          if r.1 = NGX_OK then ok (some r.2.1, r.2.2) else ok (none, r.2.2)

end

end ngx_nsoc_variables
