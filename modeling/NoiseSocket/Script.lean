import NoiseSocket.Lib.Loop
import NoiseSocket.Lib.Words
import NoiseSocket.Variables

open Exec Exec.Result

namespace ngx_nsoc_script

open ngx_nsoc (NGX_OK NGX_ERROR)
open ngx_nsoc_variables Words

abbrev SIZEOF_UINTPTR_T : Nat := 8

/-- The size of `ngx_nsoc_script_copy_code_t`, `ngx_nsoc_script_var_code_t` and
`ngx_nsoc_script_copy_capture_code_t`: a function and a word. -/
abbrev SIZEOF_CODE_T : Nat := 16

/-- `(ngx_uint_t) -1`. -/
abbrev NO_INDEX : Nat := 2 ^ 64 - 1

/-- `(n + sizeof(uintptr_t) - 1) & ~(sizeof(uintptr_t) - 1)`. -/
def align (n : Nat) : Nat := (n + SIZEOF_UINTPTR_T - 1) / SIZEOF_UINTPTR_T * SIZEOF_UINTPTR_T

/-- The functions that the codes of a script name. -/
inductive Code where
  | copy_len_code
  | copy_code
  | copy_var_len_code
  | copy_var_code
  | copy_capture_len_code
  | copy_capture_code
deriving DecidableEq, Repr

def Code.all : List Code :=
  [.copy_len_code, .copy_code, .copy_var_len_code, .copy_var_code, .copy_capture_len_code, .copy_capture_code]

/-- Where the functions lie in the program. -/
structure Program where
  address : Code → Nat
  address_inj : Function.Injective address
  address_pos : ∀ code, 0 < address code
  address_lt : ∀ code, address code < 2 ^ 64

/-- The function at an address. -/
def Program.code_at (program : Program) (address : Nat) : Option Code :=
  Code.all.find? fun code => program.address code = address

/-- `ngx_array_t`: the elements, and the number that there is room for. -/
structure NgxArray (A : Type) where
  elts : List A
  nalloc : Nat
deriving DecidableEq, Repr

/-- `ngx_array_push_n`, with what is put into the new elements. -/
def NgxArray.push_n {A : Type} (memory : Bool) (a : NgxArray A) (new : List A) : Option (NgxArray A) :=
  if a.elts.length + new.length ≤ a.nalloc then some { a with elts := a.elts ++ new }
  else if memory then some ⟨a.elts ++ new, 2 * max new.length a.nalloc⟩
  else none

/-- Why a template is refused. -/
inductive ScriptError where
  | invalid_variable
  | closing_bracket (name : List UInt8)
  | conf (error : ConfError)
  | no_memory
deriving DecidableEq, Repr

/-- `ngx_nsoc_script_compile_t`, with the configuration `cf`. The code that `main` points to is
nobody's. -/
structure Compile (H : Type) where
  cf : MainConf H
  flushes : NgxArray Nat
  lengths : NgxArray UInt8
  values : NgxArray UInt8
  nvariables : Nat
  ncaptures : Nat
  size : Nat
  zero : Bool
deriving DecidableEq, Repr

section

variable {H : Type} (program : Program) (fresh : Nat → UInt8) (memory : Bool)

/-- `ngx_nsoc_script_add_code`, with what the caller writes into the new code. The rest of it stays as
the memory was, `fresh`. -/
def add_code (codes : NgxArray UInt8) (size : Nat) (written : List UInt8) :
    Result (Option (NgxArray UInt8)) :=
  let rest := (List.range (size - written.length)).map fun i =>
    fresh (codes.elts.length + written.length + i)
  match codes.push_n memory (written ++ rest) with
  | none => ok none
  | some codes => if written.length ≤ size then ok (some codes) else fault

/-- A code for each of the two passes: what `ngx_nsoc_script_add_copy_code`,
`ngx_nsoc_script_add_var_code` and `ngx_nsoc_script_add_capture_code` end with. -/
def add_codes (sc : Compile H) (len_code code : Code) (word size : Nat) (data : List UInt8) :
    Result (Except ScriptError (Compile H)) := do
  match ← add_code fresh memory sc.lengths SIZEOF_CODE_T
      (encode SIZEOF_UINTPTR_T (program.address len_code) ++ encode SIZEOF_UINTPTR_T word) with
  | none => ok (.error .no_memory)
  | some lengths =>
    match ← add_code fresh memory sc.values size
        (encode SIZEOF_UINTPTR_T (program.address code) ++ encode SIZEOF_UINTPTR_T word ++ data) with
    | none => ok (.error .no_memory)
    | some values => ok (.ok { sc with lengths, values })

/-- `ngx_nsoc_script_add_copy_code`. -/
def add_copy_code (sc : Compile H) (value : List UInt8) (last : Bool) :
    Result (Except ScriptError (Compile H)) :=
  let zero : Bool := sc.zero && last
  let len := value.length + zero.toNat
  add_codes program fresh memory { sc with zero := sc.zero && !zero } .copy_len_code .copy_code len
    (align (SIZEOF_CODE_T + len)) (value ++ if zero then [0] else [])

/-- `ngx_nsoc_script_add_var_code`. -/
def add_var_code (sc : Compile H) (name : List UInt8) : Result (Except ScriptError (Compile H)) :=
  match get_variable_index memory sc.cf name with
  | .error e => ok (.error (.conf e))
  | .ok (cf, index) =>
    match sc.flushes.push_n memory [index] with
    | none => ok (.error .no_memory)
    | some flushes =>
      add_codes program fresh memory { sc with cf, flushes } .copy_var_len_code .copy_var_code index
        SIZEOF_CODE_T []

/-- `ngx_nsoc_script_add_capture_code`. -/
def add_capture_code (sc : Compile H) (n : Nat) : Result (Except ScriptError (Compile H)) :=
  add_codes program fresh memory { sc with ncaptures := max sc.ncaptures n } .copy_capture_len_code
    .copy_capture_code (2 * n) SIZEOF_CODE_T []

/-- `1` to `9`. -/
def capture_digit (ch : UInt8) : Prop := 49 ≤ ch ∧ ch ≤ 57

instance (ch : UInt8) : Decidable (capture_digit ch) := inferInstanceAs (Decidable (_ ∧ _))

/-- The letters, the digits and the underscore. -/
def name_char (ch : UInt8) : Prop :=
  65 ≤ ch ∧ ch ≤ 90 ∨ 97 ≤ ch ∧ ch ≤ 122 ∨ 48 ≤ ch ∧ ch ≤ 57 ∨ ch = 95

instance (ch : UInt8) : Decidable (name_char ch) := inferInstanceAs (Decidable (_ ∨ _))

/-- The loop over a name: the name, whether a bracket is still open, and what is behind. -/
def scan_name (bracket : Bool) : List UInt8 → List UInt8 × Bool × List UInt8
  | [] => ([], bracket, [])
  | ch :: rest =>
    if ch = 125 ∧ bracket then ([], false, rest)
    else if name_char ch then
      let r := scan_name bracket rest
      (ch :: r.1, r.2)
    else ([], bracket, ch :: rest)

/-- A variable of the template, behind `$` and an opening bracket. -/
def compile_variable (sc : Compile H) (bracket : Bool) (source : List UInt8) :
    Result (Except ScriptError (Compile H × List UInt8)) := do
  let (name, bracket, rest) := scan_name bracket source
  if bracket then ok (.error (.closing_bracket name))
  else if name.length = 0 then ok (.error .invalid_variable)
  else
    let r ← add_var_code program fresh memory { sc with nvariables := sc.nvariables + 1 } name
    ok (r.map fun sc => (sc, rest))

/-- One pass of the loop over a template that is not at its end. -/
def compile_next (sc : Compile H) (ch : UInt8) (source : List UInt8) :
    Result (Except ScriptError (Compile H × List UInt8)) :=
  if ch = 36 then
    match source with
    | [] => ok (.error .invalid_variable)
    | ch :: rest =>
      if capture_digit ch then do
        let r ← add_capture_code program fresh memory sc (ch.toNat - 48)
        ok (r.map fun sc => (sc, rest))
      else if ch = 123 then
        if rest = [] then ok (.error .invalid_variable)
        else compile_variable program fresh memory sc true rest
      else compile_variable program fresh memory sc false (ch :: rest)
  else do
    let name := ch :: source.takeWhile (· ≠ 36)
    let rest := source.dropWhile (· ≠ 36)
    let r ← add_copy_code program fresh memory { sc with size := sc.size + name.length } name (rest = [])
    ok (r.map fun sc => (sc, rest))

/-- The two codes `NULL` that `ngx_nsoc_script_done` ends with. -/
def complete_codes (sc : Compile H) : Result (Except ScriptError (Compile H)) := do
  match ← add_code fresh memory sc.lengths SIZEOF_UINTPTR_T (encode SIZEOF_UINTPTR_T 0) with
  | none => ok (.error .no_memory)
  | some lengths =>
    match ← add_code fresh memory sc.values SIZEOF_UINTPTR_T (encode SIZEOF_UINTPTR_T 0) with
    | none => ok (.error .no_memory)
    | some values => ok (.ok { sc with lengths, values })

/-- `ngx_nsoc_script_done`. -/
def script_done (sc : Compile H) : Result (Except ScriptError (Compile H)) :=
  if sc.zero then do
    match ← add_copy_code program fresh memory sc [0] false with
    | .error e => ok (.error e)
    | .ok sc => complete_codes fresh memory sc
  else complete_codes fresh memory sc

/-- The loop of `ngx_nsoc_script_compile` and its end. -/
def compile_body (x : Compile H × List UInt8) :
    Result (ControlFlow (Compile H × List UInt8) (Except ScriptError (Compile H))) :=
  match x.2 with
  | [] => do
    let r ← script_done program fresh memory x.1
    ok (.done r)
  | ch :: source => do
    match ← compile_next program fresh memory x.1 ch source with
    | .error e => ok (.done (.error e))
    | .ok next => ok (.cont next)

/-- `ngx_nsoc_script_compile`, which takes arrays that are there. -/
def script_compile (sc : Compile H) (source : List UInt8) : Result (Except ScriptError (Compile H)) :=
  loop (compile_body program fresh memory) (source.length + 1) ({ sc with nvariables := 0 }, source)

/-- `ngx_nsoc_complex_value_t`, with the room of `flushes`. -/
structure ComplexValue where
  value : List UInt8
  flushes : Option (NgxArray Nat)
  lengths : Option (List UInt8)
  values : Option (List UInt8)
deriving DecidableEq, Repr

/-- The loop that counts the variables and the captures, with the byte that lies behind the template. -/
def count_codes (behind : UInt8) : List UInt8 → Nat × Nat
  | [] => (0, 0)
  | ch :: rest =>
    let (nv, nc) := count_codes behind rest
    if ch = 36 then if capture_digit (rest.headD behind) then (nv, nc + 1) else (nv + 1, nc)
    else (nv, nc)

/-- What `ngx_nsoc_compile_complex_value` sets before the template is compiled. -/
def start_compile (cf : MainConf H) (zero : Bool) (nv len : Nat) : Compile H :=
  let codes := nv * (2 * SIZEOF_CODE_T + SIZEOF_CODE_T) + SIZEOF_UINTPTR_T
  { cf, zero
    flushes := ⟨[], nv + 1⟩
    lengths := ⟨[], codes⟩
    values := ⟨[], align (codes + len)⟩
    nvariables := 0
    ncaptures := 0
    size := 0 }

/-- The flush list of a template, with its terminator. -/
def finish_flushes (flushes : NgxArray Nat) : Result (Option (NgxArray Nat)) :=
  if flushes.elts.length = 0 then ok none
  else if flushes.elts.length < flushes.nalloc then
    ok (some { flushes with elts := flushes.elts ++ [NO_INDEX] })
  else fault

/-- `ngx_nsoc_compile_complex_value`, where `conf_prefix` and `root_prefix` are not set. -/
def compile_complex_value (behind : UInt8) (cf : MainConf H) (zero : Bool) (v : List UInt8) :
    Result (Except ScriptError (ComplexValue × MainConf H)) :=
  let (nv, nc) := count_codes behind v
  if nv = 0 ∧ nc = 0 then ok (.ok (⟨v, none, none, none⟩, cf))
  else if ¬memory then ok (.error .no_memory)
  else do
    match ← script_compile program fresh memory (start_compile cf zero nv v.length) v with
    | .error e => ok (.error e)
    | .ok sc =>
      let flushes ← finish_flushes sc.flushes
      ok (.ok (⟨v, flushes, some sc.lengths.elts, some sc.values.elts⟩, sc.cf))

end

/-- The captures of a session, and what else the handlers see and change. -/
structure Captured (R : Type) where
  ncaptures : Nat
  captures : List Int
  captures_data : List UInt8
  rest : R
deriving DecidableEq, Repr

/-- `ngx_nsoc_script_engine_t`: `written` is what lies in front of `pos` in the buffer `buf`, which has
`len` bytes. -/
structure Engine (R : Type) where
  ip : Nat
  written : List UInt8
  len : Nat
  flushed : Bool
  skip : Bool
  session : Session (Captured R)
deriving DecidableEq, Repr

/-- `ngx_str_t`, with the bytes at `data` that were written. -/
structure Str where
  len : Nat
  data : List UInt8
deriving DecidableEq, Repr

section

variable {H R : Type} (program : Program) (call : Call H (Captured R)) (cmcf : MainConf H)

/-- The word of a code behind its function. -/
def code_word (codes : List UInt8) (e : Engine R) : Result Nat :=
  fetch SIZEOF_UINTPTR_T codes (e.ip + SIZEOF_UINTPTR_T)

/-- `ngx_copy` to `pos`. -/
def Engine.copy (e : Engine R) (bytes : List UInt8) : Result (Engine R) :=
  if e.written.length + bytes.length ≤ e.len then ok { e with written := e.written ++ bytes } else fault

/-- `size` bytes from an offset on. -/
def slice (bytes : List UInt8) (offset : Int) (size : Nat) : Result (List UInt8) :=
  if size = 0 then ok []
  else if 0 ≤ offset ∧ offset.toNat + size ≤ bytes.length then ok ((bytes.drop offset.toNat).take size)
  else fault

/-- `cap[n + 1] - cap[n]` as a `size_t`, with `cap[n]`. -/
def Captured.capture (s : Captured R) (n : Nat) : Result (Int × Nat) :=
  match s.captures[n]?, s.captures[n + 1]? with
  | some first, some last => ok (first, ((last - first) % 2 ^ 64).toNat)
  | _, _ => fault

/-- `ngx_nsoc_script_copy_len_code`. -/
def copy_len_code (codes : List UInt8) (e : Engine R) : Result (Nat × Engine R) := do
  let len ← code_word codes e
  ok (len, { e with ip := e.ip + SIZEOF_CODE_T })

/-- The text behind a code, copied to `pos`. -/
def copy_text (codes : List UInt8) (e : Engine R) (len : Nat) : Result (Engine R) :=
  if e.skip then ok e
  else do
    let bytes ← slice codes (e.ip + SIZEOF_CODE_T : Nat) len
    e.copy bytes

/-- `ngx_nsoc_script_copy_code`. -/
def copy_code (codes : List UInt8) (e : Engine R) : Result (Engine R) := do
  let len ← code_word codes e
  let e ← copy_text codes e len
  ok { e with ip := e.ip + (SIZEOF_CODE_T + align len) }

/-- The variable of an index, as the engine gets it. -/
def get_variable_value (e : Engine R) (index : Nat) : Result (Option Value × Session (Captured R)) :=
  if e.flushed then get_indexed_variable call cmcf e.session index
  else get_flushed_variable call cmcf e.session index

/-- The value of the variable that a code names. -/
def code_variable (codes : List UInt8) (e : Engine R) : Result (Option Value × Engine R) := do
  let index ← code_word codes e
  let (value, session) ← get_variable_value call cmcf e index
  ok (value, { e with session })

/-- The bytes of a value: those of no value, and of a value that was not found, are none. -/
def value_bytes (value : Option Value) : List UInt8 :=
  match value with
  | none => []
  | some value => if value.not_found then [] else value.data

/-- `ngx_nsoc_script_copy_var_len_code`. -/
def copy_var_len_code (codes : List UInt8) (e : Engine R) : Result (Nat × Engine R) := do
  let (value, e) ← code_variable call cmcf codes e
  ok ((value_bytes value).length, { e with ip := e.ip + SIZEOF_CODE_T })

/-- `ngx_nsoc_script_copy_var_code`. -/
def copy_var_code (codes : List UInt8) (e : Engine R) : Result (Engine R) :=
  if e.skip then ok { e with ip := e.ip + SIZEOF_CODE_T }
  else do
    let (value, e) ← code_variable call cmcf codes e
    let e ← e.copy (value_bytes value)
    ok { e with ip := e.ip + SIZEOF_CODE_T }

/-- `ngx_nsoc_script_copy_capture_len_code`. -/
def copy_capture_len_code (codes : List UInt8) (e : Engine R) : Result (Nat × Engine R) := do
  let n ← code_word codes e
  let e := { e with ip := e.ip + SIZEOF_CODE_T }
  if n < e.session.rest.ncaptures then
    let (_, size) ← e.session.rest.capture n
    ok (size, e)
  else ok (0, e)

/-- `ngx_nsoc_script_copy_capture_code`. -/
def copy_capture_code (codes : List UInt8) (e : Engine R) : Result (Engine R) := do
  let n ← code_word codes e
  let e := { e with ip := e.ip + SIZEOF_CODE_T }
  if n < e.session.rest.ncaptures then
    let (first, size) ← e.session.rest.capture n
    let bytes ← slice e.session.rest.captures_data first size
    e.copy bytes
  else ok e

/-- A call of the function that a code of the first pass names. -/
def call_lcode (codes : List UInt8) (address : Nat) (e : Engine R) : Result (Nat × Engine R) :=
  match program.code_at address with
  | some .copy_len_code => copy_len_code codes e
  | some .copy_var_len_code => copy_var_len_code call cmcf codes e
  | some .copy_capture_len_code => copy_capture_len_code codes e
  | _ => fault

/-- A call of the function that a code of the second pass names. -/
def call_code (codes : List UInt8) (address : Nat) (e : Engine R) : Result (Engine R) :=
  match program.code_at address with
  | some .copy_code => copy_code codes e
  | some .copy_var_code => copy_var_code call cmcf codes e
  | some .copy_capture_code => copy_capture_code codes e
  | _ => fault

/-- One pass of the loop over the lengths. -/
def lengths_body (codes : List UInt8) (x : Nat × Engine R) :
    Result (ControlFlow (Nat × Engine R) (Nat × Engine R)) := do
  let address ← fetch SIZEOF_UINTPTR_T codes x.2.ip
  if address = 0 then ok (.done x)
  else do
    let (size, e) ← call_lcode program call cmcf codes address x.2
    ok (.cont (x.1 + size, e))

/-- One pass of the loop over the values. -/
def values_body (codes : List UInt8) (e : Engine R) :
    Result (ControlFlow (Engine R) (Engine R)) := do
  let address ← fetch SIZEOF_UINTPTR_T codes e.ip
  if address = 0 then ok (.done e)
  else do
    let e ← call_code program call cmcf codes address e
    ok (.cont e)

/-- The loop of `ngx_nsoc_script_flush_complex_value`. -/
def flush_values : List Nat → List Value → Result (List Value)
  | [], _ => fault
  | index :: indices, values =>
    if index = NO_INDEX then ok values
    else
      match values[index]? with
      | none => fault
      | some v =>
        flush_values indices
          (if v.no_cacheable then values.set index { v with valid := false, not_found := false }
          else values)

/-- `ngx_nsoc_script_flush_complex_value`. -/
def flush_complex_value (val : ComplexValue) (s : Session (Captured R)) : Result (Session (Captured R)) :=
  match val.flushes with
  | none => ok s
  | some flushes => do
    let values ← flush_values flushes.elts s.values
    ok { s with values }

/-- The two passes of `ngx_nsoc_complex_value`; `memory` is whether the buffer is allocated. -/
def run_codes (memory : Bool) (lengths values : List UInt8) (s : Session (Captured R)) :
    Result (Int × Str × Session (Captured R)) := do
  let e : Engine R := { ip := 0, written := [], len := 0, flushed := true, skip := false, session := s }
  let (len, e) ← loop (lengths_body program call cmcf lengths) (lengths.length + 1) (0, e)
  if ¬memory then ok (NGX_ERROR, ⟨len, []⟩, e.session)
  else do
    let e ← loop (values_body program call cmcf values) (values.length + 1) { e with ip := 0, len }
    ok (NGX_OK, ⟨e.len, e.written⟩, e.session)

/-- `ngx_nsoc_complex_value`. -/
def complex_value (memory : Bool) (val : ComplexValue) (s : Session (Captured R)) :
    Result (Int × Str × Session (Captured R)) :=
  match val.lengths, val.values with
  | none, _ => ok (NGX_OK, ⟨val.value.length, val.value⟩, s)
  | some _, none => fault
  | some lengths, some values => do
    let s ← flush_complex_value val s
    run_codes program call cmcf memory lengths values s

end

end ngx_nsoc_script
