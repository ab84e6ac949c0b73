import NoiseSocket.Script.Engine

open Exec Exec.Result

namespace ngx_nsoc_script

open ngx_nsoc (NGX_OK NGX_ERROR)
open ngx_nsoc_variables Words

theorem code_at_address (program : Program) (code : Code) :
    program.code_at (program.address code) = some code := by
  have hiff : ∀ code', program.address code' = program.address code ↔ code' = code := fun _ =>
    program.address_inj.eq_iff
  cases code <;> simp [Program.code_at, Code.all, hiff]

/-- The function and the word of a code are read where the code is. -/
theorem fetch_code {codes before after : List UInt8} {address word : Nat}
    (hcodes : codes = before ++ (encode SIZEOF_UINTPTR_T address ++ encode SIZEOF_UINTPTR_T word ++ after))
    (haddress : address < 2 ^ 64) (hword : word < 2 ^ 64) :
    fetch SIZEOF_UINTPTR_T codes before.length = ok address ∧
      fetch SIZEOF_UINTPTR_T codes (before.length + SIZEOF_UINTPTR_T) = ok word := by
  have hwide : 2 ^ 64 ≤ 256 ^ SIZEOF_UINTPTR_T := by decide
  constructor
  · rw [List.append_assoc] at hcodes
    exact fetch_encode (lt_of_lt_of_le haddress hwide) hcodes rfl
  · have hsplit : codes = before ++ encode SIZEOF_UINTPTR_T address ++
        (encode SIZEOF_UINTPTR_T word ++ after) := by simp only [hcodes, List.append_assoc]
    exact fetch_encode (lt_of_lt_of_le hword hwide) hsplit (by simp)

section

variable {R : Type}

/-- A capture is as long as its bytes, which are where it says. -/
theorem Captured.Sound.capture {c : Captured R} (h : c.Sound) {n : Nat} (hn : 2 * n < c.ncaptures) :
    ∃ first, c.capture (2 * n) = ok (first, (c.bytes n).length) ∧
      slice c.captures_data first (c.bytes n).length = ok (c.bytes n) := by
  obtain ⟨first, last, hfirst, hlast, hlt, hrange⟩ := h n hn
  have hbytes : c.bytes n = (c.captures_data.drop first.toNat).take (last - first).toNat := by
    rw [Captured.bytes, if_pos hn, hfirst, hlast]
  have hlength : (c.bytes n).length = (last - first).toNat := by
    rw [hbytes, List.length_take, List.length_drop]
    omega
  refine ⟨first, ?_, ?_⟩
  · have hsize : ((last - first) % 2 ^ 64).toNat = (last - first).toNat := by
      rw [Int.emod_eq_of_lt (by omega) (by omega)]
    simp only [Captured.capture, hfirst, hlast, hlength, hsize]
  · unfold slice
    by_cases hzero : (c.bytes n).length = 0
    · rw [if_pos hzero, List.eq_nil_of_length_eq_zero hzero]
    · rw [if_neg hzero, if_pos (by omega), hlength, hbytes]

variable {H : Type} {program : Program} {call : Call H (Captured R)} {cmcf : MainConf H}

/-- Variables that are asked for one after the other. -/
def fetch_variables (call : Call H (Captured R)) (cmcf : MainConf H) :
    List Nat → Session (Captured R) → Result (Session (Captured R))
  | [], s => ok s
  | i :: indices, s => do
    let r ← get_indexed_variable call cmcf s i
    fetch_variables call cmcf indices r.2

theorem fetch_variables_append (indices indices' : List Nat) (s : Session (Captured R)) :
    fetch_variables call cmcf (indices ++ indices') s =
      (fetch_variables call cmcf indices s >>= fetch_variables call cmcf indices') := by
  induction indices generalizing s with
  | nil => rfl
  | cons i indices ih =>
    simp only [List.cons_append, fetch_variables]
    cases get_indexed_variable call cmcf s i with
    | ok r => exact ih r.2
    | fault => rfl
    | div => rfl

/-! One code. -/

/-- A session that codes can be run in. -/
structure Ready (cmcf : MainConf H) (s : Session (Captured R)) : Prop where
  length : s.values.length = cmcf.indexed.length
  captures : s.rest.Sound

theorem Ready.later {s s' : Session (Captured R)} (hs : Ready cmcf s) (h : Later s s') : Ready cmcf s' :=
  ⟨h.length.trans hs.length, h.sound hs.captures⟩

/-- The code of an item in the first pass. -/
theorem call_lcode_item (hcall : OwnSlot call) (hhandled : ∀ v ∈ cmcf.indexed, v.get_handler.isSome)
    {item : Item} {codes before after : List UInt8} {e : Engine R}
    (hcodes : codes = before ++ (item.length_code program ++ after)) (hip : e.ip = before.length)
    (hflushed : e.flushed = true) (hs : Ready cmcf e.session) (hitem : item.Runs e.session) :
    ∃ s', call_lcode program call cmcf codes (program.address item.len_code) e =
        ok ((item.bytes s').length, { e with ip := e.ip + SIZEOF_CODE_T, session := s' }) ∧
      Later e.session s' ∧ item.Settled s' ∧
      fetch_variables call cmcf item.index.toList e.session = ok s' := by
  obtain ⟨-, hword⟩ := fetch_code hcodes (program.address_lt _) hitem.word
  rw [← hip] at hword
  unfold call_lcode
  rw [code_at_address]
  cases item with
  | text bytes =>
    refine ⟨e.session, ?_, .refl _, trivial, rfl⟩
    simp only [Item.len_code, copy_len_code, code_word, hword, bind_ok]
    rfl
  | var index =>
    obtain ⟨value, s', hget, hbytes, hsettled, hlater⟩ :=
      get_settles hcall hhandled hs.length (hitem.index index rfl)
    refine ⟨s', ?_, hlater, hsettled, ?_⟩
    · have hvalue : get_variable_value call cmcf e index = ok (value, s') := by
        rw [get_variable_value, if_pos hflushed, hget]
      have hword' : fetch SIZEOF_UINTPTR_T codes (e.ip + SIZEOF_UINTPTR_T) = ok index := hword
      simp only [Item.len_code, copy_var_len_code, code_variable, code_word, hword', hvalue, bind_ok,
        hbytes, Item.bytes]
    · simp only [Item.index, Option.toList, fetch_variables, hget, bind_ok]
  | capture n =>
    refine ⟨e.session, ?_, .refl _, trivial, rfl⟩
    have hword' : fetch SIZEOF_UINTPTR_T codes (e.ip + SIZEOF_UINTPTR_T) = ok (2 * n) := hword
    simp only [Item.len_code, copy_capture_len_code, code_word, hword', bind_ok, Item.bytes]
    by_cases hn : 2 * n < e.session.rest.ncaptures
    · obtain ⟨first, hcapture, -⟩ := hs.captures.capture hn
      rw [if_pos hn, hcapture, bind_ok]
    · rw [if_neg hn, Captured.bytes, if_neg hn]
      rfl

theorem slice_append {codes before bytes after : List UInt8} (hcodes : codes = before ++ (bytes ++ after))
    {offset : Nat} (hoffset : offset = before.length) : slice codes offset bytes.length = ok bytes := by
  subst hcodes hoffset
  unfold slice
  by_cases hzero : bytes.length = 0
  · rw [if_pos hzero, List.eq_nil_of_length_eq_zero hzero]
  · rw [if_neg hzero, if_pos ⟨Int.natCast_nonneg _, by simp⟩, Int.toNat_natCast, List.drop_left,
      List.take_left]

theorem copy_eq {e : Engine R} {bytes : List UInt8} (hroom : e.written.length + bytes.length ≤ e.len) :
    e.copy bytes = ok { e with written := e.written ++ bytes } := if_pos hroom

/-- The code of an item in the second pass, once its variable is settled. -/
theorem call_code_item (program : Program) (call : Call H (Captured R)) {item : Item} {codes code before after : List UInt8} {e : Engine R}
    (hcodes : codes = before ++ (code ++ after)) (hcode : item.ValueCode program code)
    (hip : e.ip = before.length) (hflushed : e.flushed = true) (hskip : e.skip = false)
    (hs : Ready cmcf e.session) (hitem : item.Runs e.session) (hsettled : item.Settled e.session)
    (hroom : e.written.length + (item.bytes e.session).length ≤ e.len) :
    call_code program call cmcf codes (program.address item.code) e =
      ok { e with
        ip := e.ip + code.length
        written := e.written ++ item.bytes e.session } := by
  obtain ⟨ip, written, len, flushed, skip, s⟩ := e
  dsimp only at *
  subst hip hflushed hskip
  obtain ⟨pad, rfl⟩ := hcode.front
  have hlength := hcode.length
  have hfront : codes = before ++ (encode SIZEOF_UINTPTR_T (program.address item.code) ++
      encode SIZEOF_UINTPTR_T item.word ++ (item.data ++ (pad ++ after))) := by
    simp only [hcodes, List.append_assoc]
  obtain ⟨-, hword⟩ := fetch_code hfront (program.address_lt _) hitem.word
  rw [hlength]
  unfold call_code
  rw [code_at_address]
  cases item with
  | text bytes =>
    have hword' : fetch SIZEOF_UINTPTR_T codes (before.length + SIZEOF_UINTPTR_T) = ok bytes.length := hword
    have hslice : slice codes (before.length + SIZEOF_CODE_T : Nat) bytes.length = ok bytes := by
      rw [← List.append_assoc] at hfront
      exact slice_append hfront (by rw [List.length_append, length_front])
    simp only [Item.code, copy_code, copy_text, code_word, hword', hslice, Bool.false_eq_true, if_false,
      bind_ok, Item.size, align_code, Item.data, Item.bytes]
    exact congrArg (· >>= _) (copy_eq hroom)
  | var index =>
    obtain ⟨value, hget, hbytes⟩ := get_settled call (hitem.index index rfl) hs.length hsettled
    have hword' : fetch SIZEOF_UINTPTR_T codes (before.length + SIZEOF_UINTPTR_T) = ok index := hword
    simp only [Item.code, copy_var_code, Bool.false_eq_true, if_false, if_true, code_variable, code_word,
      get_variable_value, hword', hget, bind_ok, hbytes, Item.size_var]
    exact congrArg (· >>= _) (copy_eq hroom)
  | capture n =>
    have hword' : fetch SIZEOF_UINTPTR_T codes (before.length + SIZEOF_UINTPTR_T) = ok (2 * n) := hword
    simp only [Item.code, copy_capture_code, code_word, hword', bind_ok, Item.size_capture]
    by_cases hn : 2 * n < s.rest.ncaptures
    · obtain ⟨first, hcapture, hslice⟩ := hs.captures.capture hn
      rw [if_pos hn, hcapture, bind_ok]
      dsimp only
      rw [hslice, bind_ok]
      exact if_pos hroom
    · rw [if_neg hn]
      simp [Item.bytes, Captured.bytes, hn]

/-! The two passes. -/

theorem lengths_body_item (hcall : OwnSlot call) (hhandled : ∀ v ∈ cmcf.indexed, v.get_handler.isSome)
    {item : Item} {codes before after : List UInt8} (len : Nat) {e : Engine R}
    (hcodes : codes = before ++ (item.length_code program ++ after)) (hip : e.ip = before.length)
    (hflushed : e.flushed = true) (hs : Ready cmcf e.session) (hitem : item.Runs e.session) :
    ∃ s', lengths_body program call cmcf codes (len, e) =
        ok (.cont (len + (item.bytes s').length, { e with ip := e.ip + SIZEOF_CODE_T, session := s' })) ∧
      Later e.session s' ∧ item.Settled s' ∧
      fetch_variables call cmcf item.index.toList e.session = ok s' := by
  obtain ⟨haddress, -⟩ := fetch_code hcodes (program.address_lt _) hitem.word
  obtain ⟨s', hcode, hlater, hsettled, hfetch⟩ :=
    call_lcode_item hcall hhandled hcodes hip hflushed hs hitem
  refine ⟨s', ?_, hlater, hsettled, hfetch⟩
  rw [← hip] at haddress
  have hne := Nat.ne_of_gt (program.address_pos item.len_code)
  simp only [lengths_body, haddress, bind_ok, hne, if_false, hcode]

/-- The first pass: the sum of the lengths, with each variable asked for as it comes. -/
theorem lengths_run (hcall : OwnSlot call) (hhandled : ∀ v ∈ cmcf.indexed, v.get_handler.isSome)
    {items : List Item} {codes before after : List UInt8} (len : Nat) {fuel : Nat} (e : Engine R)
    (hcodes : codes = before ++ (items.flatMap (Item.length_code program) ++
      (encode SIZEOF_UINTPTR_T 0 ++ after)))
    (hip : e.ip = before.length) (hflushed : e.flushed = true) (hs : Ready cmcf e.session)
    (hitems : ∀ item ∈ items, item.Runs e.session) (hfuel : items.length < fuel) :
    ∃ s' ip, loop (lengths_body program call cmcf codes) fuel (len, e) =
        ok (len + (items.flatMap (Item.bytes s')).length, { e with ip, session := s' }) ∧
      Later e.session s' ∧ (∀ item ∈ items, item.Settled s') ∧
      fetch_variables call cmcf (items.filterMap Item.index) e.session = ok s' := by
  induction items generalizing before len fuel e with
  | nil =>
    have hend : fetch SIZEOF_UINTPTR_T codes e.ip = ok 0 := fetch_encode (by decide) hcodes hip
    refine ⟨e.session, e.ip, loop_of_done (by omega) ?_, .refl _, by simp, rfl⟩
    simp [lengths_body, hend]
  | cons item items ih =>
    obtain ⟨fuel, rfl⟩ : ∃ n, fuel = n + 1 := ⟨fuel - 1, by omega⟩
    rw [List.flatMap_cons, List.append_assoc] at hcodes
    obtain ⟨s₁, hbody, hlater, hsettled, hfetch⟩ := lengths_body_item hcall hhandled len hcodes
      hip hflushed hs (hitems item List.mem_cons_self)
    have hcodes' : codes = (before ++ item.length_code program) ++
        (items.flatMap (Item.length_code program) ++ (encode SIZEOF_UINTPTR_T 0 ++ after)) := by
      rw [hcodes, List.append_assoc]
    have hip' : e.ip + SIZEOF_CODE_T = (before ++ item.length_code program).length := by
      rw [List.length_append, hip, Item.length_code, length_front]
    obtain ⟨s', ip, hloop, hlater', hall, hfetch'⟩ := ih (len + (item.bytes s₁).length) { e with
        ip := e.ip + SIZEOF_CODE_T, session := s₁ } hcodes' hip' hflushed (hs.later hlater)
      (fun i hi => (hitems i (List.mem_cons_of_mem item hi)).later hlater) (by simpa using hfuel)
    obtain ⟨hsettled', hbytes⟩ := hlater'.item hsettled
    refine ⟨s', ip, ?_, hlater.trans hlater', List.forall_mem_cons.mpr ⟨hsettled', hall⟩, ?_⟩
    · rw [loop_of_cont hbody, hloop, List.flatMap_cons, List.length_append, hbytes, Nat.add_assoc]
    · have hindex : (item :: items).filterMap Item.index = item.index.toList ++ items.filterMap Item.index := by
        cases item <;> rfl
      rw [hindex, fetch_variables_append, hfetch, bind_ok]
      exact hfetch'

/-- The second pass, over settled variables: the bytes of the items, one after the other. -/
theorem values_run (call : Call H (Captured R)) {items : List Item} {parts : List (List UInt8)}
    (hparts : List.Forall₂ (Item.ValueCode program) items parts) {codes before after : List UInt8}
    {fuel : Nat} (e : Engine R)
    (hcodes : codes = before ++ (parts.flatten ++ (encode SIZEOF_UINTPTR_T 0 ++ after)))
    (hip : e.ip = before.length) (hflushed : e.flushed = true) (hskip : e.skip = false)
    (hs : Ready cmcf e.session) (hitems : ∀ item ∈ items, item.Runs e.session ∧ item.Settled e.session)
    (hroom : e.written.length + (items.flatMap (Item.bytes e.session)).length ≤ e.len)
    (hfuel : items.length < fuel) :
    ∃ ip, loop (values_body program call cmcf codes) fuel e =
      ok { e with ip, written := e.written ++ items.flatMap (Item.bytes e.session) } := by
  induction hparts generalizing before fuel e with
  | nil =>
    have hend : fetch SIZEOF_UINTPTR_T codes e.ip = ok 0 := fetch_encode (by decide) hcodes hip
    refine ⟨e.ip, loop_of_done (by omega) ?_⟩
    simp [values_body, hend]
  | @cons item part items parts hpart _ ih =>
    obtain ⟨fuel, rfl⟩ : ∃ n, fuel = n + 1 := ⟨fuel - 1, by omega⟩
    rw [List.flatten_cons, List.append_assoc] at hcodes
    rw [List.flatMap_cons, List.length_append] at hroom
    obtain ⟨hruns, hsettled⟩ := hitems item List.mem_cons_self
    have hcode := call_code_item program call hcodes hpart hip hflushed hskip hs
      hruns hsettled (by omega)
    obtain ⟨pad, hfront⟩ := hpart.front
    have hat : codes = before ++ (encode SIZEOF_UINTPTR_T (program.address item.code) ++
        encode SIZEOF_UINTPTR_T item.word ++ (item.data ++ (pad ++ (parts.flatten ++
          (encode SIZEOF_UINTPTR_T 0 ++ after))))) := by
      rw [hcodes, ← hfront]
      simp only [List.append_assoc]
    obtain ⟨haddress, -⟩ := fetch_code hat (program.address_lt _) hruns.word
    rw [← hip] at haddress
    have hne := Nat.ne_of_gt (program.address_pos item.code)
    have hbody : values_body program call cmcf codes e = ok (.cont { e with
        ip := e.ip + part.length, written := e.written ++ item.bytes e.session }) := by
      simp only [values_body, haddress, bind_ok, hne, if_false, hcode]
    have hcodes' : codes = (before ++ part) ++ (parts.flatten ++ (encode SIZEOF_UINTPTR_T 0 ++ after)) := by
      rw [hcodes, List.append_assoc]
    have hfuel' : items.length < fuel := by simpa using hfuel
    obtain ⟨ip, hloop⟩ := ih { e with
        ip := e.ip + part.length, written := e.written ++ item.bytes e.session }
      hcodes' (by rw [List.length_append, hip]) hflushed hskip hs
      (fun i hi => hitems i (List.mem_cons_of_mem item hi))
      (by simp only [List.length_append]; omega) hfuel'
    refine ⟨ip, ?_⟩
    rw [loop_of_cont hbody, hloop]
    simp only [List.flatMap_cons, List.append_assoc]

theorem length_le_flatMap (program : Program) (items : List Item) :
    items.length ≤ (items.flatMap (Item.length_code program)).length := by
  induction items with
  | nil => exact Nat.le_refl 0
  | cons item items ih =>
    have hsize : 1 ≤ SIZEOF_CODE_T := by decide
    rw [List.flatMap_cons, List.length_append, Item.length_code, length_front, List.length_cons]
    omega

theorem length_le_flatten {items : List Item} {parts : List (List UInt8)}
    (hparts : List.Forall₂ (Item.ValueCode program) items parts) : items.length ≤ parts.flatten.length := by
  induction hparts with
  | nil => exact Nat.le_refl 0
  | @cons item part _ _ hpart _ ih =>
    have hsize : SIZEOF_CODE_T + item.data.length ≤ item.size := le_align _
    have hlength := hpart.length
    have hpos : 1 ≤ SIZEOF_CODE_T := by decide
    rw [List.flatten_cons, List.length_append, List.length_cons]
    omega

/-- The two passes agree: the buffer is filled with the bytes of the items, to its end. -/
theorem run_codes_spec (hcall : OwnSlot call) (hhandled : ∀ v ∈ cmcf.indexed, v.get_handler.isSome)
    {items : List Item} {parts : List (List UInt8)}
    (hparts : List.Forall₂ (Item.ValueCode program) items parts) {s : Session (Captured R)}
    (hs : Ready cmcf s) (hitems : ∀ item ∈ items, item.Runs s) :
    ∃ s', run_codes program call cmcf true
        (items.flatMap (Item.length_code program) ++ encode SIZEOF_UINTPTR_T 0)
        (parts.flatten ++ encode SIZEOF_UINTPTR_T 0) s =
        ok (NGX_OK, ⟨(items.flatMap (Item.bytes s')).length, items.flatMap (Item.bytes s')⟩, s') ∧
      Later s s' ∧ fetch_variables call cmcf (items.filterMap Item.index) s = ok s' := by
  have hlengths : items.flatMap (Item.length_code program) ++ encode SIZEOF_UINTPTR_T 0 =
      [] ++ (items.flatMap (Item.length_code program) ++ (encode SIZEOF_UINTPTR_T 0 ++ [])) := by
    rw [List.append_nil, List.nil_append]
  have hvalues : parts.flatten ++ encode SIZEOF_UINTPTR_T 0 =
      [] ++ (parts.flatten ++ (encode SIZEOF_UINTPTR_T 0 ++ [])) := by
    rw [List.append_nil, List.nil_append]
  have hfuel : items.length <
      (items.flatMap (Item.length_code program) ++ encode SIZEOF_UINTPTR_T 0).length + 1 := by
    have hshort := length_le_flatMap program items
    rw [List.length_append]
    omega
  have hfuel' : items.length < (parts.flatten ++ encode SIZEOF_UINTPTR_T 0).length + 1 := by
    have hshort := length_le_flatten hparts
    rw [List.length_append]
    omega
  obtain ⟨s', ip, hfirst, hlater, hsettled, hfetch⟩ := lengths_run hcall hhandled 0
    ⟨0, [], 0, true, false, s⟩ hlengths rfl rfl hs hitems hfuel
  obtain ⟨ip', hsecond⟩ := values_run call hparts
    ⟨0, [], (items.flatMap (Item.bytes s')).length, true, false, s'⟩ hvalues rfl rfl rfl
    (hs.later hlater) (fun item hitem => ⟨(hitems item hitem).later hlater, hsettled item hitem⟩)
    (by simp) hfuel'
  refine ⟨s', ?_, hlater, hfetch⟩
  simp only [run_codes, hfirst, hsecond, bind_ok, not_true_eq_false, if_false, List.nil_append,
    Nat.zero_add]

end

end ngx_nsoc_script
