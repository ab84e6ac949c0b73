import NoiseSocket.Script.Compile

open Exec Exec.Result

namespace ngx_nsoc_script

open ngx_nsoc (NGX_OK NGX_ERROR)
open ngx_nsoc_variables Words

/-- Handlers that write no slot but their own, and leave a value there, or that there is none, where they
succeed. The session behind its variables and captures is theirs. -/
structure OwnSlot {H R : Type} (call : Call H (Captured R)) : Prop where
  values : ∀ h data vv s, (call h data vv s).2.2.values = s.values
  depth : ∀ h data vv s, (call h data vv s).2.2.variable_depth = s.variable_depth
  captured : ∀ h data vv s, { (call h data vv s).2.2.rest with rest := s.rest.rest } = s.rest
  found : ∀ h data vv s, (call h data vv s).1 = NGX_OK →
    (call h data vv s).2.1.valid = true ∨ (call h data vv s).2.1.not_found = true

/-- Captures as `ngx_regex_exec` leaves them: each lies in the data, or its group has not matched. -/
def Captured.Sound {R : Type} (c : Captured R) : Prop :=
  ∀ n, 2 * n < c.ncaptures → ∃ first last : Int,
    c.captures[2 * n]? = some first ∧ c.captures[2 * n + 1]? = some last ∧ last < 2 ^ 31 ∧
      (first = -1 ∧ last = -1 ∨ 0 ≤ first ∧ first ≤ last ∧ last.toNat ≤ c.captures_data.length)

/-- The bytes of a capture. -/
def Captured.bytes {R : Type} (c : Captured R) (n : Nat) : List UInt8 :=
  if 2 * n < c.ncaptures then
    match c.captures[2 * n]?, c.captures[2 * n + 1]? with
    | some first, some last => (c.captures_data.drop first.toNat).take (last - first).toNat
    | _, _ => []
  else []

section

variable {R : Type}

/-- The value of a variable, which is nothing if it was not found. -/
def variable_bytes (s : Session (Captured R)) (index : Nat) : List UInt8 :=
  match s.values[index]? with
  | some value => if value.valid ∧ ¬value.not_found then value.data else []
  | none => []

/-- A variable that the handlers are not asked for again. -/
def Settled (s : Session (Captured R)) (index : Nat) : Prop :=
  s.variable_depth = 0 ∨ ∃ value, s.values[index]? = some value ∧ (value.not_found ∨ value.valid)

/-- What an item of a template stands for. -/
def Item.bytes (s : Session (Captured R)) : Item → List UInt8
  | .text bytes => bytes
  | .var index => variable_bytes s index
  | .capture n => s.rest.bytes n

def Item.Settled (s : Session (Captured R)) : Item → Prop
  | .text _ => True
  | .var index => ngx_nsoc_script.Settled s index
  | .capture _ => True

/-- An item that the code can be run of: its word is a word, and its variable is there. -/
structure Item.Runs (s : Session (Captured R)) (item : Item) : Prop where
  word : item.word < 2 ^ 64
  index : ∀ i, item.index = some i → i < s.values.length

/-- What happens to a session while variables are evaluated. -/
structure Later (s s' : Session (Captured R)) : Prop where
  length : s'.values.length = s.values.length
  depth : s'.variable_depth = s.variable_depth
  captured : { s'.rest with rest := s.rest.rest } = s.rest
  settled : ∀ i, Settled s i → Settled s' i ∧ variable_bytes s' i = variable_bytes s i

theorem Later.refl (s : Session (Captured R)) : Later s s := ⟨rfl, rfl, rfl, fun _ h => ⟨h, rfl⟩⟩

theorem Later.trans {s s' s'' : Session (Captured R)} (h : Later s s') (h' : Later s' s'') :
    Later s s'' := by
  refine ⟨h'.length.trans h.length, h'.depth.trans h.depth, ?_, fun i hi => ?_⟩
  · rw [← h.captured, ← h'.captured]
  · obtain ⟨hsettled, hbytes⟩ := h.settled i hi
    obtain ⟨hsettled', hbytes'⟩ := h'.settled i hsettled
    exact ⟨hsettled', hbytes'.trans hbytes⟩

theorem Later.capture_bytes {s s' : Session (Captured R)} (h : Later s s') (n : Nat) :
    s'.rest.bytes n = s.rest.bytes n := by
  rw [← h.captured]
  rfl

theorem Later.sound {s s' : Session (Captured R)} (h : Later s s') (hs : s.rest.Sound) :
    s'.rest.Sound := by
  rw [← h.captured] at hs
  exact hs

theorem Later.item {s s' : Session (Captured R)} (h : Later s s') {item : Item} (hs : item.Settled s) :
    item.Settled s' ∧ item.bytes s' = item.bytes s := by
  cases item with
  | text bytes => exact ⟨trivial, rfl⟩
  | var index => exact h.settled index hs
  | capture n => exact ⟨trivial, h.capture_bytes n⟩

theorem Item.Runs.later {s s' : Session (Captured R)} {item : Item} (hitem : item.Runs s)
    (h : Later s s') : item.Runs s' :=
  ⟨hitem.word, fun i hi => by rw [h.length]; exact hitem.index i hi⟩

/-! Variables. -/

section

variable {H : Type} {call : Call H (Captured R)} {cmcf : MainConf H} {s : Session (Captured R)} {i : Nat}

/-- A settled variable is the same every time. -/
theorem get_settled (call : Call H (Captured R)) (hi : i < s.values.length) (hlen : s.values.length = cmcf.indexed.length)
    (h : Settled s i) :
    ∃ value, get_indexed_variable call cmcf s i = ok (value, s) ∧
      value_bytes value = variable_bytes s i := by
  have hi' : i < cmcf.indexed.length := by omega
  have hvalue := List.getElem?_eq_getElem hi
  have hvar := List.getElem?_eq_getElem hi'
  unfold get_indexed_variable variable_bytes
  rw [if_neg (by omega), hvalue, hvar]
  dsimp only
  by_cases hknown : s.values[i].not_found = true ∨ s.values[i].valid = true
  · refine ⟨some s.values[i], if_pos hknown, ?_⟩
    cases hnot : s.values[i].not_found <;> cases hvalid : s.values[i].valid <;>
      simp_all [value_bytes]
  · obtain hdepth | ⟨value, hget, hset⟩ := h
    · refine ⟨none, by rw [if_neg hknown, if_pos hdepth], ?_⟩
      have hvalid : s.values[i].valid ≠ true := fun hvalid => hknown (.inr hvalid)
      simp [value_bytes, hvalid]
    · obtain rfl := Option.some.inj (hvalue.symm.trans hget)
      exact absurd hset hknown

/-- A slot that is written leaves the others as they were. -/
theorem later_set {r : Session (Captured R)} {value : Value} (hvalues : r.values = s.values)
    (hdepth : r.variable_depth = s.variable_depth) (hcaptured : { r.rest with rest := s.rest.rest } = s.rest)
    (hunsettled : ¬Settled s i) : Later s { r with values := r.values.set i value } := by
  refine ⟨by rw [List.length_set, hvalues], hdepth, hcaptured, fun j hj => ?_⟩
  have hne : i ≠ j := by
    rintro rfl
    exact hunsettled hj
  have hget : ({ r with values := r.values.set i value } : Session (Captured R)).values[j]? = s.values[j]? := by
    rw [← hvalues]
    exact List.getElem?_set_ne hne
  refine ⟨?_, by simp only [variable_bytes, hget]⟩
  obtain hzero | ⟨v, hv, hset⟩ := hj
  · exact .inl (hdepth.trans hzero)
  · exact .inr ⟨v, hget.trans hv, hset⟩

/-- A variable is settled once it has been asked for. -/
theorem get_settles (hcall : OwnSlot call) (hhandled : ∀ v ∈ cmcf.indexed, v.get_handler.isSome)
    (hlen : s.values.length = cmcf.indexed.length) (hi : i < s.values.length) :
    ∃ value s', get_indexed_variable call cmcf s i = ok (value, s') ∧
      value_bytes value = variable_bytes s' i ∧ Settled s' i ∧ Later s s' := by
  by_cases hsettled : Settled s i
  · obtain ⟨value, hget, hbytes⟩ := get_settled call hi hlen hsettled
    exact ⟨value, s, hget, hbytes, hsettled, .refl s⟩
  have hi' : i < cmcf.indexed.length := by omega
  have hvalue := List.getElem?_eq_getElem hi
  have hvar := List.getElem?_eq_getElem hi'
  have hknown : ¬(s.values[i].not_found = true ∨ s.values[i].valid = true) :=
    fun hset => hsettled (.inr ⟨_, hvalue, hset⟩)
  have hdepth : s.variable_depth ≠ 0 := fun hzero => hsettled (.inl hzero)
  obtain ⟨handler, hhandler⟩ := Option.isSome_iff_exists.mp (hhandled _ (List.getElem_mem hi'))
  unfold get_indexed_variable
  rw [if_neg (by omega), hvalue, hvar]
  dsimp only
  rw [if_neg hknown, if_neg hdepth, Session.call_deeper, hhandler]
  dsimp only
  rw [bind_ok]
  dsimp only
  obtain ⟨deeper, hdeeper⟩ : ∃ d : Session (Captured R),
    d = { s with variable_depth := s.variable_depth - 1 } := ⟨_, rfl⟩
  rw [← hdeeper]
  have hvalues := hcall.values handler cmcf.indexed[i].data s.values[i] deeper
  have hdepth' := hcall.depth handler cmcf.indexed[i].data s.values[i] deeper
  have hcaptured := hcall.captured handler cmcf.indexed[i].data s.values[i] deeper
  have hfound := hcall.found handler cmcf.indexed[i].data s.values[i] deeper
  generalize call handler cmcf.indexed[i].data s.values[i] deeper = result at hvalues hdepth' hcaptured hfound ⊢
  obtain ⟨rc, value, r⟩ := result
  dsimp only at hvalues hdepth' hcaptured hfound ⊢
  rw [hdeeper] at hvalues hdepth' hcaptured
  dsimp only at hvalues hdepth' hcaptured
  have hlater : ∀ value, Later s { r with
      values := r.values.set i value, variable_depth := r.variable_depth + 1 } := by
    intro value
    refine later_set (r := { r with variable_depth := r.variable_depth + 1 }) hvalues ?_ hcaptured hsettled
    dsimp only
    omega
  have hslot : ∀ value : Value, (r.values.set i value)[i]? = some value := by
    intro value
    rw [hvalues]
    exact List.getElem?_set_self hi
  by_cases hrc : rc = NGX_OK
  · rw [if_pos hrc]
    refine ⟨_, _, rfl, ?_, ?_, hlater _⟩
    · simp only [variable_bytes, hslot, value_bytes]
      have hset := hfound hrc
      split_ifs <;> simp_all
    · refine .inr ⟨_, hslot _, ?_⟩
      have hset := hfound hrc
      split_ifs
      · exact hset.symm
      · exact hset.symm
  · rw [if_neg hrc]
    refine ⟨_, _, rfl, ?_, .inr ⟨_, hslot _, .inl rfl⟩, hlater _⟩
    simp [variable_bytes, hslot, value_bytes]

end

end

end ngx_nsoc_script
