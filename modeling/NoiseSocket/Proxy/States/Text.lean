import NoiseSocket.Lib.Signed
import NoiseSocket.Lib.Text
import NoiseSocket.Proxy.States.Run
import NoiseSocket.Variables

open Exec Exec.Result

namespace ngx_nsoc_upstream

open ngx_nsoc ngx_nsoc_proxy

abbrev NGX_OFF_T_LEN : Nat := 20
abbrev NGX_TIME_T_LEN : Nat := 20

/-- A byte count as an `off_t` has it. -/
def off_t (n : Nat) : Int := Signed.int64 n

/-- What `ngx_sprintf` writes for the two formats here: an `off_t` for `"%O"`, and seconds and milliseconds
for `"%T.%03M"`. -/
structure Sprintf where
  off : Int → List UInt8
  time : Nat → Nat → List UInt8

/-- The formats as they are documented: numbers in decimal, the milliseconds with three digits. -/
structure Sprintf.Documented (sprintf : Sprintf) : Prop where
  off : ∀ n, sprintf.off n = if n < 0 then 45 :: Text.decimal n.natAbs else Text.decimal n.natAbs
  time : ∀ seconds ms, ms < 1000 →
    sprintf.time seconds ms = Text.decimal seconds ++ 46 :: (Text.decimal ms).leftpad 3 48

/-- `ngx_max(ms, 0)` of an `ngx_msec_int_t`. -/
def not_negative (ms : UInt64) : Nat := if ms.toNat < 2 ^ 63 then ms.toNat else 0

/-- A time in seconds, with its milliseconds behind the point. -/
def Sprintf.seconds (sprintf : Sprintf) (ms : Nat) : List UInt8 := sprintf.time (ms / 1000) (ms % 1000)

/-- The memory at `v->data`, and what has been written there, up to `p`. -/
structure Written where
  size : Nat
  text : List UInt8
deriving DecidableEq, Repr

def Written.write (bytes : List UInt8) (p : Written) : Result Written :=
  if p.text.length + bytes.length ≤ p.size then ok { p with text := p.text ++ bytes } else fault

/-- `", "`. -/
abbrev comma : List UInt8 := [44, 32]

/-- The loop over `s->upstream_states`, which looks for their end behind each entry. -/
def write_states (entry : UpstreamState → List UInt8) : List UpstreamState → Written → Result Written
  | [], _ => fault
  | [state], p => p.write (entry state)
  | state :: next :: rest, p => do
    let p ← p.write (entry state)
    let p ← p.write comma
    write_states entry (next :: rest) p

/-- What the functions for these variables do: `size` is what they allocate, `entry` what they write for
a state. -/
def states_variable (size : List UpstreamState → Nat) (entry : UpstreamState → List UInt8) (memory : Bool)
    (upstream_states : Option (List UpstreamState)) (v : ngx_nsoc_variables.Value) :
    Result (Int × ngx_nsoc_variables.Value) :=
  let v := { v with valid := true, no_cacheable := false, not_found := false }
  let states := upstream_states.getD []
  if states = [] then ok (NGX_OK, { v with not_found := true })
  else if ¬ memory then ok (NGX_ERROR, v)
  else do
    let p ← write_states entry states ⟨size states, []⟩
    ok (NGX_OK, { v with data := p.text })

section

variable (sprintf : Sprintf) (names : PeerName → List UInt8) (data : Nat)

def addr_text (state : UpstreamState) : List UInt8 := (state.peer.map names).getD []

def bytes_of (state : UpstreamState) : Nat := if data = 1 then state.bytes_received else state.bytes_sent

def bytes_text (state : UpstreamState) : List UInt8 := sprintf.off (off_t (bytes_of data state))

def time_text (state : UpstreamState) : List UInt8 :=
  if data = 1 then
    if state.first_byte_time = no_time then [45] else sprintf.seconds (not_negative state.first_byte_time)
  else if data = 2 ∧ state.connect_time ≠ no_time then sprintf.seconds (not_negative state.connect_time)
  else sprintf.seconds (not_negative state.response_time)

/-- `ngx_nsoc_upstream_addr_variable`. -/
def upstream_addr_variable :=
  states_variable (fun states => (states.map fun state => (addr_text names state).length + 2).sum)
    (addr_text names)

/-- `ngx_nsoc_upstream_bytes_variable`. -/
def upstream_bytes_variable :=
  states_variable (fun states => states.length * (NGX_OFF_T_LEN + 2)) (bytes_text sprintf data)

/-- `ngx_nsoc_upstream_response_time_variable`. -/
def upstream_response_time_variable :=
  states_variable (fun states => states.length * (NGX_TIME_T_LEN + 4 + 2)) (time_text sprintf data)

end

/-- The `get_handler` of a variable of `ngx_nsoc_upstream_vars`. -/
inductive StatesHandler where
  | addr
  | bytes
  | response_time
deriving DecidableEq, Repr

namespace StatesHandler

variable (sprintf : Sprintf) (names : PeerName → List UInt8) (data : Nat)

def get : StatesHandler → Bool → Option (List UpstreamState) → ngx_nsoc_variables.Value →
    Result (Int × ngx_nsoc_variables.Value)
  | addr => upstream_addr_variable names
  | bytes => upstream_bytes_variable sprintf data
  | response_time => upstream_response_time_variable sprintf data

/-- The text for one state. -/
def entry : StatesHandler → UpstreamState → List UInt8
  | addr => addr_text names
  | bytes => bytes_text sprintf data
  | response_time => time_text sprintf data

end StatesHandler

theorem off_t_natAbs_le (n : Nat) : (off_t n).natAbs ≤ 2 ^ 63 := by
  have hbounds : -2 ^ 63 ≤ off_t n ∧ off_t n < 2 ^ 63 := Signed.int64_bounds n
  omega

theorem not_negative_lt (ms : UInt64) : not_negative ms < 2 ^ 63 := by
  unfold not_negative
  split
  · assumption
  · decide

section

variable {sprintf : Sprintf}

theorem Sprintf.Documented.seconds (hsprintf : sprintf.Documented) (ms : Nat) :
    sprintf.seconds ms = Text.decimal (ms / 1000) ++ 46 :: (Text.decimal (ms % 1000)).leftpad 3 48 :=
  hsprintf.time _ _ (Nat.mod_lt _ (by decide))

theorem Sprintf.Documented.length_off (hsprintf : sprintf.Documented) (n : Nat) :
    (sprintf.off (off_t n)).length ≤ NGX_OFF_T_LEN := by
  have hle := off_t_natAbs_le n
  have hdigits : (Text.decimal (off_t n).natAbs).length ≤ 19 :=
    Text.length_decimal_le (by decide) (by omega)
  have hlen : NGX_OFF_T_LEN = 20 := rfl
  rw [hsprintf.off]
  split
  · rw [List.length_cons]
    omega
  · omega

theorem Sprintf.Documented.length_seconds (hsprintf : sprintf.Documented) {ms : Nat} (h : ms < 2 ^ 63) :
    (sprintf.seconds ms).length ≤ NGX_TIME_T_LEN + 4 := by
  have hseconds : (Text.decimal (ms / 1000)).length ≤ 20 :=
    Text.length_decimal_le (by decide) (by omega)
  have hms : (Text.decimal (ms % 1000)).length ≤ 3 :=
    Text.length_decimal_le (by decide) (Nat.mod_lt _ (by decide))
  rw [hsprintf.seconds, List.length_append, List.length_cons, List.length_leftpad, Nat.max_eq_left hms]
  exact Nat.add_le_add_right hseconds 4

theorem length_time_text (hsprintf : sprintf.Documented) (data : Nat) (state : UpstreamState) :
    (time_text sprintf data state).length ≤ NGX_TIME_T_LEN + 4 := by
  have htime := fun ms => hsprintf.length_seconds (not_negative_lt ms)
  unfold time_text
  split
  · split
    · decide
    · exact htime _
  · split
    · exact htime _
    · exact htime _

/-- The loop writes the entries, a comma and a blank between them, where they fit. -/
theorem write_states_eq {entry : UpstreamState → List UInt8} {states : List UpstreamState} {p : Written}
    (hstates : states ≠ [])
    (hfits : p.text.length + (comma.intercalate (states.map entry)).length ≤ p.size) :
    write_states entry states p = ok { p with text := p.text ++ comma.intercalate (states.map entry) } := by
  induction states generalizing p with
  | nil => exact absurd rfl hstates
  | cons state states ih =>
    cases states with
    | nil =>
      simp only [List.map_cons, List.map_nil, List.intercalate_singleton] at hfits ⊢
      exact if_pos hfits
    | cons next rest =>
      simp only [List.map_cons, List.intercalate_cons_cons, List.length_append] at hfits ih ⊢
      have hentry : p.write (entry state) = ok { p with text := p.text ++ entry state } :=
        if_pos (by omega)
      have hcomma : Written.write comma { p with text := p.text ++ entry state } =
          ok { p with text := p.text ++ entry state ++ comma } :=
        if_pos (by simp only [List.length_append]; omega)
      simp only [write_states, hentry, hcomma, bind_ok]
      rw [ih (List.cons_ne_nil _ _) (by simp only [List.length_append]; omega)]
      simp only [List.append_assoc]

theorem states_variable_spec {size : List UpstreamState → Nat} {entry : UpstreamState → List UInt8}
    (hsize : ∀ states, states ≠ [] → ((states.map entry).map fun t => t.length + 2).sum ≤ size states)
    (memory : Bool) (upstream_states : Option (List UpstreamState)) (v : ngx_nsoc_variables.Value) :
    states_variable size entry memory upstream_states v = ok
      (if upstream_states.getD [] = [] then
        (NGX_OK, { v with valid := true, no_cacheable := false, not_found := true })
      else if memory then
        (NGX_OK, ⟨comma.intercalate ((upstream_states.getD []).map entry), true, false, false⟩)
      else (NGX_ERROR, { v with valid := true, no_cacheable := false, not_found := false })) := by
  unfold states_variable
  simp only
  by_cases hstates : upstream_states.getD [] = []
  · rw [if_pos hstates, if_pos hstates]
  rw [if_neg hstates, if_neg hstates]
  cases memory with
  | false => rfl
  | true =>
    have hlength := Text.length_intercalate comma (l := (upstream_states.getD []).map entry)
      (by simpa using hstates)
    have hle := hsize _ hstates
    have hcomma : comma.length = 2 := rfl
    simp only [hcomma] at hlength
    have hwrite : write_states entry (upstream_states.getD []) ⟨size (upstream_states.getD []), []⟩ =
        ok ⟨size (upstream_states.getD []), comma.intercalate ((upstream_states.getD []).map entry)⟩ :=
      write_states_eq hstates (by simp only [List.length_nil]; omega)
    simp [hwrite, bind_ok]

theorem sum_entries_le {entry : UpstreamState → List UInt8} {n : Nat} (h : ∀ state, (entry state).length ≤ n)
    (states : List UpstreamState) :
    ((states.map entry).map fun t => t.length + 2).sum ≤ states.length * (n + 2) := by
  induction states with
  | nil => exact Nat.zero_le _
  | cons state states ih =>
    have hstate := h state
    simp only [List.map_cons, List.sum_cons, List.length_cons, Nat.succ_mul]
    omega

/-- A variable is the entries of the states, in their order; nothing is written behind what has been
allocated. -/
theorem StatesHandler.get_eq (hsprintf : sprintf.Documented) (names : PeerName → List UInt8) (data : Nat)
    (handler : StatesHandler) (memory : Bool) (upstream_states : Option (List UpstreamState))
    (v : ngx_nsoc_variables.Value) :
    handler.get sprintf names data memory upstream_states v = ok
      (if upstream_states.getD [] = [] then
        (NGX_OK, { v with valid := true, no_cacheable := false, not_found := true })
      else if memory then
        (NGX_OK, ⟨comma.intercalate ((upstream_states.getD []).map (handler.entry sprintf names data)),
          true, false, false⟩)
      else (NGX_ERROR, { v with valid := true, no_cacheable := false, not_found := false })) := by
  cases handler with
  | addr =>
    have hsize : ∀ states : List UpstreamState, states ≠ [] →
        ((states.map (addr_text names)).map fun t => t.length + 2).sum ≤
          (states.map fun state => (addr_text names state).length + 2).sum := by
      intro states _
      rw [List.map_map]
      exact Nat.le_refl _
    exact states_variable_spec hsize _ _ _
  | bytes =>
    exact states_variable_spec (fun states _ => sum_entries_le (fun _ => hsprintf.length_off _) states) _ _ _
  | response_time =>
    exact states_variable_spec (fun states _ => sum_entries_le (length_time_text hsprintf data) states) _ _ _

theorem not_mem_decimal {b : UInt8} (hb : b.toNat < 48) (n : Nat) : b ∉ Text.decimal n := by
  intro hmem
  have hdigit := Text.digit_of_mem hmem
  omega

theorem Sprintf.Documented.comma_not_mem_off (hsprintf : sprintf.Documented) (n : Int) :
    44 ∉ sprintf.off n := by
  rw [hsprintf.off]
  split
  · simp [not_mem_decimal]
  · exact not_mem_decimal (by decide) _

theorem Sprintf.Documented.comma_not_mem_seconds (hsprintf : sprintf.Documented) (ms : Nat) :
    44 ∉ sprintf.seconds ms := by
  have hseconds := not_mem_decimal (b := 44) (by decide) (ms / 1000)
  have hms := not_mem_decimal (b := 44) (by decide) (ms % 1000)
  simp [hsprintf.seconds, List.leftpad, hseconds, hms]

/-- The text of a byte count says which `off_t` it is. -/
theorem Sprintf.Documented.off_inj (hsprintf : sprintf.Documented) {m n : Int}
    (h : sprintf.off m = sprintf.off n) : m = n := by
  have hdash : ∀ k, 45 ∉ Text.decimal k := fun k => not_mem_decimal (by decide) k
  rw [hsprintf.off, hsprintf.off] at h
  split at h
  · split at h
    · have habs := Text.decimal_inj (List.tail_eq_of_cons_eq h)
      omega
    · exact absurd (h ▸ List.mem_cons_self) (hdash n.natAbs)
  · split at h
    · exact absurd (h.symm ▸ List.mem_cons_self) (hdash m.natAbs)
    · have habs := Text.decimal_inj h
      omega

/-- The text of a time says how many milliseconds it is. -/
theorem Sprintf.Documented.seconds_inj (hsprintf : sprintf.Documented) {m n : Nat}
    (h : sprintf.seconds m = sprintf.seconds n) : m = n := by
  rw [hsprintf.seconds, hsprintf.seconds] at h
  obtain ⟨hseconds, hms⟩ := Text.append_cons_inj (not_mem_decimal (by decide) _)
    (not_mem_decimal (by decide) _) h
  have hseconds := Text.decimal_inj hseconds
  have hms := congrArg Text.value hms
  rw [Text.value_leftpad, Text.value_leftpad, Text.value_decimal, Text.value_decimal] at hms
  omega

theorem map_eq_of_map_eq {α β γ : Type} {f : α → β} {g : α → γ} (hfg : ∀ a b, f a = f b → g a = g b)
    {l l' : List α} (h : l.map f = l'.map f) : l.map g = l'.map g := by
  induction l generalizing l' with
  | nil =>
    rw [List.map_nil, eq_comm, List.map_eq_nil_iff] at h
    rw [h]
  | cons a l ih =>
    obtain ⟨b, l', rfl, hb, hrest⟩ := List.map_eq_cons_iff.mp h.symm
    rw [List.map_cons, List.map_cons, hfg a b hb.symm, ih hrest.symm]

/-- Entries without a comma can be read back from the text. -/
theorem entries_eq_of_text {entry : UpstreamState → List UInt8} {states states' : List UpstreamState}
    (hstates : states ≠ []) (hstates' : states' ≠ []) (hentry : ∀ state, 44 ∉ entry state)
    (h : comma.intercalate (states.map entry) = comma.intercalate (states'.map entry)) :
    states.map entry = states'.map entry := by
  have hcomma : ∀ states : List UpstreamState, ∀ t ∈ states.map entry, 44 ∉ t := by
    intro states t ht
    obtain ⟨state, -, rfl⟩ := List.mem_map.mp ht
    exact hentry state
  exact Text.intercalate_inj (by simpa using hstates) (by simpa using hstates') (hcomma states)
    (hcomma states') h

theorem time_text_zero (sprintf : Sprintf) (state : UpstreamState) :
    time_text sprintf 0 state = sprintf.seconds (not_negative state.response_time) := by
  simp [time_text]

/-- In every state of a session these variables can be read, and nothing is written behind what has been
allocated for them: a variable is one entry for each attempt, in their order, and its text says how many
bytes each of the attempts has transferred, or how long it took. -/
theorem variables_tell (hsprintf : sprintf.Documented) (names : PeerName → List UInt8) (data : Nat)
    (handler : StatesHandler) (memory : Bool) (upstream_states : Option (List UpstreamState))
    (v : ngx_nsoc_variables.Value) :
    ∃ rc w, handler.get sprintf names data memory upstream_states v = ok (rc, w) ∧
      (w.not_found = true ↔ upstream_states.getD [] = []) ∧
      (rc = NGX_ERROR ↔ upstream_states.getD [] ≠ [] ∧ memory = false) ∧
      (upstream_states.getD [] ≠ [] → memory = true →
        w.data = comma.intercalate ((upstream_states.getD []).map (handler.entry sprintf names data)) ∧
        ∀ states' v' rc' w', states' ≠ [] →
          handler.get sprintf names data true (some states') v' = ok (rc', w') → w'.data = w.data →
          (handler = .bytes → (upstream_states.getD []).map (fun state => off_t (bytes_of data state)) =
            states'.map fun state => off_t (bytes_of data state)) ∧
          (handler = .response_time → data = 0 →
            (upstream_states.getD []).map (fun state => not_negative state.response_time) =
              states'.map fun state => not_negative state.response_time)) := by
  have hget := handler.get_eq hsprintf names data memory upstream_states v
  by_cases hstates : upstream_states.getD [] = []
  · rw [if_pos hstates] at hget
    exact ⟨_, _, hget, by simp [hstates], by simp [hstates, NGX_OK, NGX_ERROR],
      fun hne => absurd hstates hne⟩
  rw [if_neg hstates] at hget
  cases memory with
  | false => exact ⟨_, _, hget, by simp [hstates], by simp [hstates], fun _ hmemory => by cases hmemory⟩
  | true =>
    rw [if_pos rfl] at hget
    refine ⟨_, _, hget, by simp [hstates], by simp [NGX_OK, NGX_ERROR], fun _ _ => ⟨rfl, ?_⟩⟩
    intro states' v' rc' w' hstates' hget' hdata
    rw [handler.get_eq hsprintf, Option.getD_some, if_neg hstates', if_pos rfl] at hget'
    cases hget'
    constructor
    · rintro rfl
      exact map_eq_of_map_eq (fun _ _ => hsprintf.off_inj)
        (entries_eq_of_text hstates hstates' (fun _ => hsprintf.comma_not_mem_off _) hdata.symm)
    · rintro rfl rfl
      refine map_eq_of_map_eq (fun a b hab => ?_)
        (entries_eq_of_text hstates hstates' (fun state => ?_) hdata.symm)
      · simp only [StatesHandler.entry, time_text_zero] at hab
        exact hsprintf.seconds_inj hab
      · rw [StatesHandler.entry, time_text_zero]
        exact hsprintf.comma_not_mem_seconds _

end

/-- `ngx_sprintf` for numbers of any size. -/
def decimals : Sprintf where
  off n := if n < 0 then 45 :: Text.decimal n.natAbs else Text.decimal n.natAbs
  time seconds ms := Text.decimal seconds ++ 46 :: (Text.decimal ms).leftpad 3 48

theorem documented_decimals : decimals.Documented := ⟨fun _ => rfl, fun _ _ _ => rfl⟩

/-- Two attempts, of a second and a half and of 20 milliseconds. -/
theorem variables_tell_of_two : ∃ w : ngx_nsoc_variables.Value,
    StatesHandler.response_time.get decimals (fun _ => []) 0 true
      (some [⟨1500, no_time, no_time, 0, 0, none⟩, ⟨20, no_time, no_time, 0, 0, none⟩])
      ⟨[], false, false, false⟩ = ok (NGX_OK, w) ∧
    w.data = [49, 46, 53, 48, 48, 44, 32, 48, 46, 48, 50, 48] := by
  obtain ⟨rc, w, hget, -, -, htext⟩ := variables_tell documented_decimals (fun _ => []) 0 .response_time true
    (some [⟨1500, no_time, no_time, 0, 0, none⟩, ⟨20, no_time, no_time, 0, 0, none⟩])
    ⟨[], false, false, false⟩
  have hdata := (htext (by decide) rfl).1
  have hok := StatesHandler.get_eq documented_decimals (fun _ => []) 0 .response_time true
    (some [⟨1500, no_time, no_time, 0, 0, none⟩, ⟨20, no_time, no_time, 0, 0, none⟩])
    ⟨[], false, false, false⟩
  rw [hget] at hok
  cases hok
  exact ⟨_, hget, hdata.trans (by decide)⟩

section

variable {S : Type} {N : NoiseC S} {us us₀ us₁ : Upstream} {s₀ : Proxy S} {x : Call × Logged S}
  {times : List UInt64} {sprintf : Sprintf}

/-- Behind a session `$upstream_session_time` is how long each attempt took. -/
theorem session_time_of_run (hsprintf : sprintf.Documented) (hus : us₁.Configured) (hshape : us₀.shape = us₁.shape) (hs₀ : s₀.Created)
    (h : LoggedRun N us₀ s₀ times us x) (hended : x.1 = .ended) (hstates : x.2.upstream_states ≠ [])
    (names : PeerName → List UInt8) (v : ngx_nsoc_variables.Value) :
    StatesHandler.response_time.get sprintf names 0 true (some x.2.upstream_states) v = ok (NGX_OK,
      ⟨comma.intercalate ((Gaps.gaps times).map fun gap => sprintf.seconds (not_negative gap)), true, false,
        false⟩) := by
  have hgaps := (h.sound (hus.ready.congr hshape) hs₀).1.ended hended
  have hentries : x.2.upstream_states.map (time_text sprintf 0) =
      (Gaps.gaps times).map fun gap => sprintf.seconds (not_negative gap) := by
    rw [← hgaps, List.map_map]
    exact List.map_congr_left fun state _ => time_text_zero sprintf state
  rw [StatesHandler.get_eq hsprintf, Option.getD_some, if_neg hstates, if_pos rfl, ← hentries]
  rfl

end

end ngx_nsoc_upstream
