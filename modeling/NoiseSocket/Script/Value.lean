import NoiseSocket.Script.Run

open Exec Exec.Result

namespace ngx_nsoc_script

open ngx_nsoc (NGX_OK NGX_ERROR)
open ngx_nsoc_variables Words

/-! The counts of the first loop are those of the pieces. -/

/-- The number of captures of a template. -/
def capture_count (pieces : List Piece) : Nat :=
  pieces.countP fun
    | .capture _ => true
    | _ => false

theorem count_codes_append {behind : UInt8} {taken rest : List UInt8} (h : 36 ∉ taken) :
    count_codes behind (taken ++ rest) = count_codes behind rest := by
  induction taken with
  | nil => rfl
  | cons ch taken ih =>
    have hch : ch ≠ 36 := fun heq => h (by rw [heq]; exact List.mem_cons_self)
    simp only [List.cons_append, count_codes, if_neg hch]
    exact ih fun hmem => h (List.mem_cons_of_mem ch hmem)

theorem count_codes_dollar {behind : UInt8} {taken rest : List UInt8} (h : 36 ∉ taken) :
    count_codes behind (36 :: (taken ++ rest)) =
      if capture_digit ((taken ++ rest).headD behind) then
        ((count_codes behind rest).1, (count_codes behind rest).2 + 1)
      else ((count_codes behind rest).1 + 1, (count_codes behind rest).2) := by
  simp only [count_codes, count_codes_append h, if_true]

theorem not_capture_digit_brace : ¬capture_digit 123 := by decide

theorem count_codes_token {behind : UInt8} {template rest : List UInt8} {piece : Piece}
    (h : Token template piece rest) :
    count_codes behind template =
      ((count_codes behind rest).1 + named_count [piece],
        (count_codes behind rest).2 + capture_count [piece]) := by
  cases h with
  | text _ hnot => exact count_codes_append hnot
  | @capture ch _ hdigit =>
    have hnot : 36 ∉ [ch] := by
      intro hmem
      obtain rfl := List.mem_singleton.mp hmem
      exact absurd hdigit (by decide)
    exact (count_codes_dollar hnot).trans (if_pos hdigit)
  | @named name rest hname hdigit =>
    rw [count_codes_dollar (hname.not_mem not_name_char_dollar), if_neg]
    · rfl
    · obtain ⟨ch, name, rfl⟩ := List.exists_cons_of_ne_nil hname.nonempty
      exact hdigit ch (by simp)
  | @braced name rest hname =>
    have hnot : 36 ∉ 123 :: (name ++ [125]) := by
      have hname := hname.not_mem not_name_char_dollar
      simp [hname]
    have hsplit : 123 :: (name ++ 125 :: rest) = 123 :: (name ++ [125]) ++ rest := by simp
    rw [hsplit, count_codes_dollar hnot, if_neg]
    · rfl
    · exact not_capture_digit_brace

theorem count_codes_reads (behind : UInt8) {template : List UInt8} {pieces : List Piece}
    (h : Reads template pieces) :
    count_codes behind template = (named_count pieces, capture_count pieces) := by
  induction h with
  | nil => rfl
  | cons htoken _ ih =>
    rw [count_codes_token htoken, ih]
    simp only [named_count, capture_count, List.countP_cons, List.countP_nil, Nat.zero_add]

theorem not_mem_of_count {behind : UInt8} {template : List UInt8}
    (hnv : (count_codes behind template).1 = 0) (hnc : (count_codes behind template).2 = 0) :
    36 ∉ template := by
  induction template with
  | nil => simp
  | cons ch template ih =>
    simp only [count_codes] at hnv hnc
    by_cases hch : ch = 36
    · rw [if_pos hch] at hnv hnc
      by_cases hdigit : capture_digit (template.headD behind)
      · rw [if_pos hdigit] at hnc
        exact absurd hnc (Nat.succ_ne_zero _)
      · rw [if_neg hdigit] at hnv
        exact absurd hnv (Nat.succ_ne_zero _)
    · rw [if_neg hch] at hnv hnc
      simpa [Ne.symm hch] using ih hnv hnc

theorem Reads.length_le {template : List UInt8} {pieces : List Piece} (h : Reads template pieces) :
    pieces.length ≤ template.length := by
  induction h with
  | nil => exact Nat.le_refl 0
  | cons htoken _ ih =>
    have hlt := htoken.length_lt
    rw [List.length_cons]
    omega

/-! What a piece stands for. -/

section

variable {H R : Type}

/-- The index of the variable of a piece. -/
def Piece.index (cmcf : MainConf H) : Piece → Option Nat
  | .text _ => none
  | .named name => index_of cmcf.names name
  | .capture _ => none

/-- A text stands for itself, a variable for its value and a capture for its bytes. -/
def Piece.bytes (cmcf : MainConf H) (s : Session (Captured R)) : Piece → List UInt8
  | .text bytes => bytes
  | .named name =>
    match index_of cmcf.names name with
    | some i => variable_bytes s i
    | none => []
  | .capture n => s.rest.bytes n

theorem Resolves.same {names : List (List UInt8)} {cmcf : MainConf H} {piece : Piece} {item : Item}
    (h : Resolves names piece item) (hnames : names <+: cmcf.names) (s : Session (Captured R)) :
    piece.index cmcf = item.index ∧ piece.bytes cmcf s = item.bytes s := by
  cases h with
  | text => exact ⟨rfl, rfl⟩
  | capture => exact ⟨rfl, rfl⟩
  | named hname =>
    have hindex := index_of_append hname hnames
    exact ⟨hindex, by simp only [Piece.bytes, hindex, Item.bytes]⟩

theorem same_of_resolves {names : List (List UInt8)} {cmcf : MainConf H} {pieces : List Piece}
    {items : List Item} (h : List.Forall₂ (Resolves names) pieces items) (hnames : names <+: cmcf.names)
    (s : Session (Captured R)) :
    pieces.filterMap (Piece.index cmcf) = items.filterMap Item.index ∧
      pieces.flatMap (Piece.bytes cmcf s) = items.flatMap (Item.bytes s) := by
  induction h with
  | nil => exact ⟨rfl, rfl⟩
  | cons hpiece _ ih =>
    obtain ⟨hindex, hbytes⟩ := hpiece.same hnames s
    exact ⟨by rw [List.filterMap_cons, List.filterMap_cons, hindex, ih.1],
      by rw [List.flatMap_cons, List.flatMap_cons, hbytes, ih.2]⟩

/-- A template without variables and captures stands for itself. -/
theorem Reads.bytes_of_text {template : List UInt8} {pieces : List Piece} (h : Reads template pieces)
    (hnamed : named_count pieces = 0) (hcapture : capture_count pieces = 0) (cmcf : MainConf H)
    (s : Session (Captured R)) :
    pieces.flatMap (Piece.bytes cmcf s) = template ∧ pieces.filterMap (Piece.index cmcf) = [] := by
  induction h with
  | nil => exact ⟨rfl, rfl⟩
  | @cons template piece rest pieces htoken _ ih =>
    simp only [named_count, capture_count, List.countP_cons, Nat.add_eq_zero_iff] at hnamed hcapture ih
    obtain ⟨hbytes, hindices⟩ := ih hnamed.1 hcapture.1
    cases htoken with
    | text =>
      exact ⟨by rw [List.flatMap_cons, hbytes]; rfl, by rw [List.filterMap_cons, hindices]; rfl⟩
    | capture => simp at hcapture
    | named => simp at hnamed
    | braced => simp at hnamed

/-- The words of the codes are words. -/
theorem word_lt {template : List UInt8} {pieces : List Piece} (h : Reads template pieces)
    {names : List (List UInt8)} {items : List Item} (hitems : List.Forall₂ (Resolves names) pieces items)
    (hnames : names.length < 2 ^ 63) (hlength : template.length < 2 ^ 63) :
    ∀ item ∈ items, item.word < 2 ^ 64 := by
  induction h generalizing items with
  | nil =>
    cases hitems
    simp
  | cons htoken _ ih =>
    cases hitems with
    | cons hpiece hrest =>
      have hlt := htoken.length_lt
      refine List.forall_mem_cons.mpr ⟨?_, ih hrest (by omega)⟩
      cases hpiece with
      | named hname =>
        have hi := index_of_lt hname
        simp only [Item.word]
        omega
      | text bytes =>
        cases htoken with
        | text =>
          rw [List.length_append] at hlength
          simp only [Item.word]
          omega
      | capture n =>
        cases htoken with
        | @capture ch =>
          have hch := ch.toNat_lt
          simp only [Item.word]
          omega

theorem index_lt {names : List (List UInt8)} {pieces : List Piece} {items : List Item}
    (h : List.Forall₂ (Resolves names) pieces items) :
    ∀ item ∈ items, ∀ i, item.index = some i → i < names.length := by
  induction h with
  | nil => simp
  | cons hpiece _ ih =>
    refine List.forall_mem_cons.mpr ⟨?_, ih⟩
    cases hpiece with
    | text => simp [Item.index]
    | capture => simp [Item.index]
    | named hname =>
      rintro i ⟨⟩
      exact index_of_lt hname

/-! The flush list. -/

theorem flush_values_ok {indices : List Nat} {values : List Value}
    (h : ∀ i ∈ indices, i < values.length ∧ i ≠ NO_INDEX) :
    ∃ values', flush_values (indices ++ [NO_INDEX]) values = ok values' ∧
      values'.length = values.length := by
  induction indices generalizing values with
  | nil => exact ⟨values, by rw [List.nil_append, flush_values, if_pos rfl], rfl⟩
  | cons i indices ih =>
    obtain ⟨hi, hne⟩ := h i List.mem_cons_self
    rw [List.cons_append, flush_values, if_neg hne, List.getElem?_eq_getElem hi]
    dsimp only
    have hrest : ∀ values' : List Value, values'.length = values.length →
        ∃ values'', flush_values (indices ++ [NO_INDEX]) values' = ok values'' ∧
          values''.length = values.length := by
      intro values' hlength
      rw [← hlength]
      refine ih fun j hj => ?_
      rw [hlength]
      exact h j (List.mem_cons_of_mem i hj)
    split_ifs
    · exact hrest _ List.length_set
    · exact hrest _ rfl

end

/-- What an accepted template is compiled to. -/
inductive Value.Of {H : Type} (program : Program) (template : List UInt8) (pieces : List Piece)
    (cf' : MainConf H) : ComplexValue → Prop where
  | text : named_count pieces = 0 → capture_count pieces = 0 →
      Value.Of program template pieces cf' ⟨template, none, none, none⟩
  | codes {items parts flushes} : List.Forall₂ (Resolves cf'.names) pieces items →
      List.Forall₂ (Item.ValueCode program) items parts →
      (flushes = none ∧ items.filterMap Item.index = [] ∨
        flushes = some ⟨items.filterMap Item.index ++ [NO_INDEX], named_count pieces + 1⟩) →
      (items.filterMap Item.index).length = named_count pieces →
      Value.Of program template pieces cf' ⟨template, flushes,
        some (items.flatMap (Item.length_code program) ++ encode SIZEOF_UINTPTR_T 0),
        some (parts.flatten ++ encode SIZEOF_UINTPTR_T 0)⟩

section

variable {H : Type}

/-- A template that consists of pieces is accepted. -/
theorem compile_complex_value_of_reads (program : Program) (fresh : Nat → UInt8) (behind : UInt8)
    (cf : MainConf H) {template : List UInt8} {pieces : List Piece} (h : Reads template pieces) :
    ∃ cv cf', compile_complex_value program fresh true behind cf false template = ok (.ok (cv, cf')) ∧
      Value.Of program template pieces cf' cv ∧
      cf'.names.length ≤ cf.names.length + pieces.length := by
  have hcount := count_codes_reads behind h
  unfold compile_complex_value
  rw [hcount]
  dsimp only
  by_cases hnone : named_count pieces = 0 ∧ capture_count pieces = 0
  · rw [if_pos hnone]
    exact ⟨_, _, rfl, .text hnone.1 hnone.2, Nat.le_add_right _ _⟩
  rw [if_neg hnone, if_neg (by simp)]
  have hemitted : Emitted program []
      { start_compile cf false (named_count pieces) template.length with nvariables := 0 } :=
    ⟨rfl, ⟨[], .nil, rfl⟩, rfl, rfl⟩
  obtain ⟨sc, items, hloop, hcompiled, hitems, -, hnames, hnalloc, hlength⟩ :=
    compile_of_reads fresh h hemitted (by simp [start_compile]) (Nat.lt_succ_self _)
  rw [List.nil_append] at hcompiled
  obtain ⟨parts, hparts, hvalues⟩ := hcompiled.values
  have hflushed : sc.flushes.elts.length = named_count pieces := hlength.trans (Nat.zero_add _)
  have hroom : sc.flushes.nalloc = named_count pieces + 1 := hnalloc
  rw [script_compile, hloop, bind_ok]
  dsimp only
  have hindices := hcompiled.flushes
  obtain ⟨flushes, hfinish, hlist⟩ : ∃ flushes, finish_flushes sc.flushes = ok flushes ∧
      (flushes = none ∧ items.filterMap Item.index = [] ∨
        flushes = some ⟨items.filterMap Item.index ++ [NO_INDEX], named_count pieces + 1⟩) := by
    unfold finish_flushes
    split_ifs with hzero hlt
    · exact ⟨none, rfl, .inl ⟨rfl, by rw [← hindices]; exact List.eq_nil_of_length_eq_zero hzero⟩⟩
    · exact ⟨_, rfl, .inr (by rw [hindices, hroom])⟩
    · exact absurd (by omega) hlt
  refine ⟨_, _, by rw [hfinish, bind_ok], ?_, hnames⟩
  rw [hcompiled.lengths, hvalues]
  exact .codes hitems hparts hlist (by rw [← hindices]; exact hflushed)

/-- The compiler returns on every template, and accepts those that consist of pieces. -/
theorem compile_complex_value_iff (program : Program) (fresh : Nat → UInt8) (behind : UInt8)
    (cf : MainConf H) (template : List UInt8) :
    ∃ r, compile_complex_value program fresh true behind cf false template = ok r ∧
      ((∃ x, r = .ok x) ↔ WellFormed template) := by
  by_cases hreads : ∃ pieces, Reads template pieces
  · obtain ⟨pieces, hpieces⟩ := hreads
    obtain ⟨cv, cf', hcompile, -⟩ := compile_complex_value_of_reads program fresh behind cf
      hpieces
    exact ⟨_, hcompile, fun _ => wellFormed_iff_reads.mpr ⟨pieces, hpieces⟩, fun _ => ⟨_, rfl⟩⟩
  have hill : ¬WellFormed template := fun hall => hreads (wellFormed_iff_reads.mp hall)
  have hsome : ¬((count_codes behind template).1 = 0 ∧ (count_codes behind template).2 = 0) := by
    intro hnone
    have hnot := not_mem_of_count hnone.1 hnone.2
    refine hill fun before rest hsplit => absurd ?_ hnot
    rw [hsplit]
    simp
  obtain ⟨r, hr⟩ := script_compile_total program fresh true
    (start_compile cf false (count_codes behind template).1 template.length) template
  cases r with
  | error e =>
    refine ⟨.error e, ?_, by simp [hill]⟩
    simp only [compile_complex_value, hsome, if_false, not_true_eq_false, hr, bind_ok]
  | ok sc => exact absurd (reads_of_compile hr) hreads

end

/-- The compiler accepts the well-formed templates, within the room of its flush list. The two passes over
an accepted one agree: they yield its texts, the values of its variables and its captures in order, for
handlers that keep to their slots. The variables and the template fit into an address space. -/
theorem template_evaluates {H R : Type} (program : Program) (fresh : Nat → UInt8) (behind : UInt8)
    (cf : MainConf H) (template : List UInt8) (hsize : cf.indexed.length + template.length < 2 ^ 63) :
    (∃ r, compile_complex_value program fresh true behind cf false template = ok r ∧
      ((∃ x, r = .ok x) ↔ WellFormed template)) ∧
    ∀ cv cf', compile_complex_value program fresh true behind cf false template = ok (.ok (cv, cf')) →
      (∀ flushes, cv.flushes = some flushes →
        flushes.nalloc = (count_codes behind template).1 + 1 ∧ flushes.elts.length ≤ flushes.nalloc ∧
          flushes.elts.getLast? = some NO_INDEX) ∧
      ∃ pieces, Reads template pieces ∧
        ∀ (call : Call H (Captured R)) (cmcf : MainConf H) (s : Session (Captured R)),
          OwnSlot call → Serves cf' cmcf → Ready cmcf s →
          ∃ flushed s', flush_complex_value cv s = ok flushed ∧
            fetch_variables call cmcf (pieces.filterMap (Piece.index cmcf)) flushed = ok s' ∧
            complex_value program call cmcf true cv s =
              ok (NGX_OK, ⟨(pieces.flatMap (Piece.bytes cmcf s')).length,
                pieces.flatMap (Piece.bytes cmcf s')⟩, s') := by
  refine ⟨compile_complex_value_iff program fresh behind cf template, fun cv cf' hcompile => ?_⟩
  obtain ⟨r, hr, hiff⟩ := compile_complex_value_iff program fresh behind cf template
  obtain rfl := ok.inj (hcompile.symm.trans hr)
  obtain ⟨pieces, hreads⟩ := wellFormed_iff_reads.mp (hiff.mp ⟨_, rfl⟩)
  obtain ⟨cv', cf'', hcompile', hof, hnames⟩ := compile_complex_value_of_reads program fresh
    behind cf hreads
  obtain ⟨rfl, rfl⟩ := Prod.mk.inj (Except.ok.inj (ok.inj (hcompile.symm.trans hcompile')))
  have hshort := hreads.length_le
  have hcf : cf.names.length = cf.indexed.length := List.length_map _
  have hcount := count_codes_reads behind hreads
  rw [hcount]
  cases hof with
  | text hnamed hcapture =>
    refine ⟨by simp, pieces, hreads, fun call cmcf s _ _ _ => ⟨s, s, rfl, ?_, ?_⟩⟩
    · rw [(hreads.bytes_of_text hnamed hcapture cmcf s).2]
      rfl
    · rw [(hreads.bytes_of_text hnamed hcapture cmcf s).1]
      rfl
  | @codes items parts flushes hitems hparts hflushes hnumber =>
    refine ⟨?_, pieces, hreads, fun call cmcf s hcall hserves hs => ?_⟩
    · rintro _ rfl
      obtain ⟨hnone, -⟩ | hsome := hflushes
      · cases hnone
      · obtain rfl := Option.some.inj hsome
        refine ⟨rfl, ?_, by simp⟩
        rw [List.length_append, hnumber]
        exact Nat.le_refl _
    have hindexed : cf'.names.length ≤ s.values.length := by
      have hle := hserves.names.length_le
      have hcmcf : cmcf.names.length = cmcf.indexed.length := List.length_map _
      rw [hs.length, ← hcmcf]
      exact hle
    have hword := word_lt hreads hitems (by omega) (by omega)
    have hindex := index_lt hitems
    obtain ⟨values, hflush, hvalues⟩ : ∃ values, flush_complex_value ⟨template, flushes,
        some (items.flatMap (Item.length_code program) ++ encode SIZEOF_UINTPTR_T 0),
        some (parts.flatten ++ encode SIZEOF_UINTPTR_T 0)⟩ s = ok { s with values } ∧
        values.length = s.values.length := by
      obtain ⟨rfl, -⟩ | rfl := hflushes
      · exact ⟨s.values, rfl, rfl⟩
      · have hin : ∀ i ∈ items.filterMap Item.index, i < s.values.length ∧ i ≠ NO_INDEX := by
          intro i hi
          obtain ⟨item, hitem, hitem_index⟩ := List.mem_filterMap.mp hi
          have hlt := hindex item hitem i hitem_index
          exact ⟨by omega, by simp only [NO_INDEX]; omega⟩
        obtain ⟨values, hflush, hlength⟩ := flush_values_ok hin
        exact ⟨values, by simp only [flush_complex_value, hflush, bind_ok], hlength⟩
    have hready : Ready cmcf { s with values } := ⟨hvalues.trans hs.length, hs.captures⟩
    obtain ⟨s', hrun, -, hfetch⟩ := run_codes_spec hcall hserves.handled hparts hready fun item hitem =>
      ⟨hword item hitem, fun i hi => by
        rw [hvalues]
        exact Nat.lt_of_lt_of_le (hindex item hitem i hi) hindexed⟩
    obtain ⟨hsame, hbytes⟩ := same_of_resolves hitems hserves.names s'
    refine ⟨_, s', hflush, by rw [hsame]; exact hfetch, ?_⟩
    rw [hbytes]
    simp only [complex_value, hflush, bind_ok]
    exact hrun

/-- A program that has the functions at the first addresses. -/
def linked : Program where
  address
    | .copy_len_code => 1
    | .copy_code => 2
    | .copy_var_len_code => 3
    | .copy_var_code => 4
    | .copy_capture_len_code => 5
    | .copy_capture_code => 6
  address_inj := by
    intro code code' h
    cases code <;> cases code' <;> first | rfl | cases h
  address_pos code := by cases code <;> decide
  address_lt code := by cases code <;> decide

def no_variables : MainConf Bool := ⟨[], [], none, []⟩

/-- A handler that has a value, and one that finds none. -/
def answer : Call Bool (Captured Unit) := fun found _ _ s =>
  (NGX_OK, if found then ⟨[65, 66], true, false, false⟩ else ⟨[], false, false, true⟩, s)

/-- The variable `b` has a value. -/
def served (cf : MainConf Bool) : MainConf Bool :=
  { cf with indexed := cf.indexed.map fun v => { v with get_handler := some (v.name == [98]) } }

/-- The first capture is the middle of three bytes. -/
def new_session (cmcf : MainConf Bool) : Session (Captured Unit) where
  values := cmcf.indexed.map fun _ => ⟨[], false, false, false⟩
  variable_depth := 100
  rest := ⟨4, [0, 3, 1, 2], [88, 89, 90], ()⟩

theorem serves_served (cf : MainConf Bool) : Serves cf (served cf) := by
  refine ⟨?_, by simp [served]⟩
  simp only [MainConf.names, served, List.map_map]
  exact List.prefix_rfl

theorem ready_new_session (cmcf : MainConf Bool) : Ready cmcf (new_session cmcf) := by
  refine ⟨List.length_map _, fun n hn => ?_⟩
  have hpair : 2 * n < 4 := hn
  obtain rfl | rfl : n = 0 ∨ n = 1 := by omega
  · exact ⟨0, 3, rfl, rfl, by decide, .inr ⟨by decide, by decide, Nat.le_refl 3⟩⟩
  · exact ⟨1, 2, rfl, rfl, by decide, .inr ⟨by decide, by decide, Nat.le_succ 2⟩⟩

theorem ownSlot_answer : OwnSlot answer := by
  refine ⟨fun _ _ _ _ => rfl, fun _ _ _ _ => rfl, fun _ _ _ _ => rfl, ?_⟩
  intro found data vv s _
  cases found
  · exact .inr rfl
  · exact .inl rfl

/-- `a$1${b}$c` is `a`, the capture, the value of `b`, and nothing for `c`. -/
theorem template_evaluates_of_captures : ∃ cv cf' s',
    compile_complex_value linked (fun _ => 0) true 0 no_variables false
      [97, 36, 49, 36, 123, 98, 125, 36, 99] = ok (.ok (cv, cf')) ∧
      complex_value linked answer (served cf') true cv (new_session (served cf')) =
        ok (NGX_OK, ⟨4, [97, 89, 65, 66]⟩, s') := by
  have hreads : Reads [97, 36, 49, 36, 123, 98, 125, 36, 99]
      [.text [97], .capture 1, .named [98], .named [99]] :=
    .cons (next_token_iff.mp rfl) (.cons (next_token_iff.mp rfl) (.cons (next_token_iff.mp rfl)
      (.cons (next_token_iff.mp rfl) .nil)))
  obtain ⟨-, pieces, hpieces, hall⟩ := (template_evaluates (R := Unit) linked (fun _ => 0) 0 no_variables
    [97, 36, 49, 36, 123, 98, 125, 36, 99] (by decide)).2 _ _ rfl
  obtain rfl := hreads.unique hpieces
  obtain ⟨flushed, s', hflush, hfetch, hvalue⟩ := hall answer (served _) (new_session (served _))
    ownSlot_answer (serves_served _) (ready_new_session _)
  cases hflush
  cases hfetch
  exact ⟨_, _, _, rfl, hvalue⟩

end ngx_nsoc_script
