import Mathlib.Data.List.Forall2
import NoiseSocket.Script.Template
import NoiseSocket.Variables.Index

open Exec Exec.Result

namespace ngx_nsoc_script

open ngx_nsoc (NGX_OK NGX_ERROR)
open ngx_nsoc_variables Words

/-- A piece of a template whose variable has an index. -/
inductive Item where
  | text (bytes : List UInt8)
  | var (index : Nat)
  | capture (n : Nat)
deriving DecidableEq, Repr

namespace Item

def len_code : Item → Code
  | text _ => .copy_len_code
  | var _ => .copy_var_len_code
  | capture _ => .copy_capture_len_code

def code : Item → Code
  | text _ => .copy_code
  | var _ => .copy_var_code
  | capture _ => .copy_capture_code

/-- The word behind the function. -/
def word : Item → Nat
  | text bytes => bytes.length
  | var index => index
  | capture n => 2 * n

/-- What a code of the second pass carries. -/
def data : Item → List UInt8
  | text bytes => bytes
  | var _ => []
  | capture _ => []

def index : Item → Option Nat
  | text _ => none
  | var index => some index
  | capture _ => none

/-- The size of a code of the second pass. -/
def size (item : Item) : Nat := align (SIZEOF_CODE_T + item.data.length)

theorem size_var (index : Nat) : (var index).size = SIZEOF_CODE_T := by
  simp [size, data, align, SIZEOF_CODE_T, SIZEOF_UINTPTR_T]

theorem size_capture (n : Nat) : (capture n).size = SIZEOF_CODE_T := by
  simp [size, data, align, SIZEOF_CODE_T, SIZEOF_UINTPTR_T]

/-- A code of the first pass. -/
def length_code (program : Program) (item : Item) : List UInt8 :=
  encode SIZEOF_UINTPTR_T (program.address item.len_code) ++ encode SIZEOF_UINTPTR_T item.word

/-- A code of the second pass, up to its padding. -/
structure ValueCode (program : Program) (item : Item) (bytes : List UInt8) : Prop where
  length : bytes.length = item.size
  front : encode SIZEOF_UINTPTR_T (program.address item.code) ++ encode SIZEOF_UINTPTR_T item.word ++
    item.data <+: bytes

end Item

theorem le_align (n : Nat) : n ≤ align n := by
  simp only [align, SIZEOF_UINTPTR_T]
  omega

theorem align_code (len : Nat) : align (SIZEOF_CODE_T + len) = SIZEOF_CODE_T + align len := by
  simp only [align, SIZEOF_UINTPTR_T, SIZEOF_CODE_T]
  omega

/-- The index that a name of the template has got. -/
inductive Resolves (names : List (List UInt8)) : Piece → Item → Prop where
  | text (bytes : List UInt8) : Resolves names (.text bytes) (.text bytes)
  | capture (n : Nat) : Resolves names (.capture n) (.capture n)
  | named {name : List UInt8} {i : Nat} : index_of names name = some i →
      Resolves names (.named name) (.var i)

theorem Resolves.mono {names names' : List (List UInt8)} {piece : Piece} {item : Item}
    (h : Resolves names piece item) (hnames : names <+: names') : Resolves names' piece item := by
  cases h with
  | text => exact .text _
  | capture => exact .capture _
  | named hname => exact .named (index_of_append hname hnames)

section

variable {H : Type} {program : Program} {fresh : Nat → UInt8} {memory : Bool}

/-- What the compiler has put into its arrays: a code for each item in both passes, and the indices of
the variables. -/
structure Emitted (program : Program) (items : List Item) (sc : Compile H) : Prop where
  lengths : sc.lengths.elts = items.flatMap (Item.length_code program)
  values : ∃ codes, List.Forall₂ (Item.ValueCode program) items codes ∧ sc.values.elts = codes.flatten
  flushes : sc.flushes.elts = items.filterMap Item.index
  zero : sc.zero = false

/-! One code. -/

theorem push_n_ok {A : Type} (a : NgxArray A) (new : List A) :
    ∃ nalloc, a.push_n true new = some ⟨a.elts ++ new, nalloc⟩ := by
  by_cases hroom : a.elts.length + new.length ≤ a.nalloc
  · exact ⟨_, if_pos hroom⟩
  · exact ⟨_, (if_neg hroom).trans (if_pos rfl)⟩

theorem add_code_ok (fresh : Nat → UInt8) (codes : NgxArray UInt8) {size : Nat} {written : List UInt8}
    (hsize : written.length ≤ size) :
    ∃ pad nalloc, written.length + pad.length = size ∧
      add_code fresh true codes size written = ok (some ⟨codes.elts ++ (written ++ pad), nalloc⟩) := by
  obtain ⟨pad, hpad⟩ : ∃ pad, pad = (List.range (size - written.length)).map fun i =>
      fresh (codes.elts.length + written.length + i) := ⟨_, rfl⟩
  obtain ⟨nalloc, hpush⟩ := push_n_ok codes (written ++ pad)
  refine ⟨pad, nalloc, ?_, ?_⟩
  · rw [hpad, List.length_map, List.length_range]
    omega
  · rw [hpad] at hpush ⊢
    simp only [add_code, hpush, if_pos hsize]

theorem add_code_total (codes : NgxArray UInt8) {size : Nat} {written : List UInt8}
    (hsize : written.length ≤ size) : ∃ r, add_code fresh memory codes size written = ok r := by
  simp only [add_code]
  split
  · exact ⟨none, rfl⟩
  · exact ⟨_, if_pos hsize⟩

theorem length_front (program : Program) (len_code : Code) (word : Nat) :
    (encode SIZEOF_UINTPTR_T (program.address len_code) ++ encode SIZEOF_UINTPTR_T word).length =
      SIZEOF_CODE_T :=
  List.length_append.trans (congrArg₂ (· + ·) (length_encode _ _) (length_encode _ _))

/-- A code for each pass comes behind the codes that are there. -/
theorem Emitted.add {items : List Item} {sc : Compile H} (h : Emitted program items sc)
    (fresh : Nat → UInt8) (item : Item) (sc' : Compile H) (hlengths : sc'.lengths = sc.lengths) (hvalues : sc'.values = sc.values)
    (hzero : sc'.zero = false) (hflushes : sc'.flushes.elts = sc.flushes.elts ++ item.index.toList) :
    ∃ lengths values, add_codes program fresh true sc' item.len_code item.code item.word item.size
        item.data = ok (.ok { sc' with lengths, values }) ∧
      Emitted program (items ++ [item]) { sc' with lengths, values } := by
  obtain ⟨front, hfront⟩ : ∃ front, front = encode SIZEOF_UINTPTR_T (program.address item.code) ++
      encode SIZEOF_UINTPTR_T item.word ++ item.data := ⟨_, rfl⟩
  have hlength : front.length = SIZEOF_CODE_T + item.data.length := by
    rw [hfront, List.length_append, length_front]
  obtain ⟨pad, nalloc, hpad, hfirst⟩ := add_code_ok fresh sc.lengths
    (length_front program item.len_code item.word).le
  obtain ⟨pad', nalloc', hpad', hsecond⟩ := add_code_ok fresh sc.values
    (hlength.le.trans (le_align _))
  rw [length_front] at hpad
  obtain rfl : pad = [] := List.eq_nil_of_length_eq_zero (by omega)
  rw [List.append_nil] at hfirst
  obtain ⟨codes, hcodes, hflatten⟩ := h.values
  have hcode : Item.ValueCode program item (front ++ pad') :=
    ⟨by rw [List.length_append, hpad', Item.size], by rw [← hfront]; exact List.prefix_append _ _⟩
  refine ⟨⟨sc.lengths.elts ++ item.length_code program, nalloc⟩,
    ⟨sc.values.elts ++ (front ++ pad'), nalloc'⟩, ?_, ?_,
    ⟨codes ++ [front ++ pad'], List.rel_append hcodes (.cons hcode .nil), ?_⟩, ?_, hzero⟩
  · simp only [add_codes, hlengths, hvalues, hfirst, ← hfront, Item.size, hsecond, bind_ok,
      Item.length_code]
  · simp only [h.lengths, List.flatMap_append, List.flatMap_singleton]
  · simp only [hflatten, List.flatten_append, List.flatten_singleton]
  · rw [List.filterMap_append, ← h.flushes, hflushes]
    cases item <;> rfl

theorem add_codes_total (sc : Compile H) (len_code code : Code) (word : Nat) {size : Nat}
    {data : List UInt8} (hsize : SIZEOF_CODE_T + data.length ≤ size) :
    ∃ r, add_codes program fresh memory sc len_code code word size data = ok r := by
  have hwritten : (encode SIZEOF_UINTPTR_T (program.address code) ++ encode SIZEOF_UINTPTR_T word ++
      data).length ≤ size := by rwa [List.length_append, length_front]
  refine bind_total (add_code_total sc.lengths (length_front program len_code word).le) fun r => ?_
  cases r with
  | none => exact ⟨_, rfl⟩
  | some lengths =>
    refine bind_total (add_code_total sc.values hwritten) fun r => ?_
    cases r with
    | none => exact ⟨_, rfl⟩
    | some values => exact ⟨_, rfl⟩

/-! One piece. -/

/-- What the compiler does with a piece, with what is behind it. -/
def add_piece (program : Program) (fresh : Nat → UInt8) (memory : Bool) (sc : Compile H)
    (rest : List UInt8) : Piece → Result (Except ScriptError (Compile H))
  | .text bytes =>
    add_copy_code program fresh memory { sc with size := sc.size + bytes.length } bytes (rest = [])
  | .named name => add_var_code program fresh memory { sc with nvariables := sc.nvariables + 1 } name
  | .capture n => add_capture_code program fresh memory sc n

/-- The compiler is a scanner and the code for what it finds. -/
theorem compile_next_eq (sc : Compile H) (ch : UInt8) (source : List UInt8) :
    compile_next program fresh memory sc ch source =
      match next_token ch source with
      | .error e => ok (.error e)
      | .ok (piece, rest) => add_piece program fresh memory sc rest piece >>= fun r =>
        ok (r.map fun sc => (sc, rest)) := by
  have hname : ∀ (bracket : Bool) (source : List UInt8),
      compile_variable program fresh memory sc bracket source =
        match next_name bracket source with
        | .error e => ok (.error e)
        | .ok (piece, rest) => add_piece program fresh memory sc rest piece >>= fun r =>
          ok (r.map fun sc => (sc, rest)) := by
    intro bracket source
    simp only [compile_variable, next_name]
    split_ifs
    all_goals rfl
  unfold compile_next next_token
  split
  · cases source with
    | nil => rfl
    | cons ch rest =>
      dsimp only
      split_ifs
      · rfl
      · rfl
      · exact hname true rest
      · exact hname false (ch :: rest)
  · rfl

theorem add_piece_total (program : Program) (fresh : Nat → UInt8) (memory : Bool) (sc : Compile H) (rest : List UInt8) (piece : Piece) :
    ∃ r, add_piece program fresh memory sc rest piece = ok r := by
  cases piece with
  | text bytes =>
    refine add_codes_total _ _ _ _ (le_trans ?_ (le_align _))
    cases (sc.zero && decide (rest = [])) <;> simp
  | named name =>
    simp only [add_piece, add_var_code]
    split
    · exact ⟨_, rfl⟩
    · split
      · exact ⟨_, rfl⟩
      · exact add_codes_total _ _ _ _ (le_refl _)
  | capture n => exact add_codes_total _ _ _ _ (le_refl _)

/-- The number of variables of a template. -/
def named_count (pieces : List Piece) : Nat :=
  pieces.countP fun
    | .named _ => true
    | _ => false

/-- A piece is compiled: its codes come behind the others, and a variable of it takes one of the
indices to flush. -/
theorem add_piece_ok (fresh : Nat → UInt8) {items : List Item} {sc : Compile H} {rest template : List UInt8} {piece : Piece}
    (h : Emitted program items sc) (htoken : Token template piece rest)
    (hroom : sc.flushes.elts.length + named_count [piece] < sc.flushes.nalloc) :
    ∃ sc' item, add_piece program fresh true sc rest piece = ok (.ok sc') ∧
      Emitted program (items ++ [item]) sc' ∧ Resolves sc'.cf.names piece item ∧
      sc.cf.names <+: sc'.cf.names ∧ sc'.cf.names.length ≤ sc.cf.names.length + 1 ∧
      sc'.flushes.nalloc = sc.flushes.nalloc ∧
      sc'.flushes.elts.length = sc.flushes.elts.length + named_count [piece] := by
  have hname : ∀ name, piece = .named name → name ≠ [] := by
    rintro name rfl
    cases htoken with
    | named hname => exact hname.nonempty
    | braced hname => exact hname.nonempty
  cases piece with
  | text bytes =>
    obtain ⟨lengths, values, hadd, hemitted⟩ := h.add fresh (.text bytes)
      { sc with size := sc.size + bytes.length, zero := false } rfl rfl rfl (List.append_nil _).symm
    refine ⟨_, .text bytes, ?_, hemitted, .text bytes, List.prefix_rfl, Nat.le_succ _, rfl, rfl⟩
    rw [← hadd]
    simp [add_piece, add_copy_code, h.zero, Item.len_code, Item.code, Item.word, Item.size, Item.data]
  | capture n =>
    obtain ⟨lengths, values, hadd, hemitted⟩ := h.add fresh (.capture n)
      { sc with ncaptures := max sc.ncaptures n } rfl rfl h.zero (List.append_nil _).symm
    rw [Item.size_capture] at hadd
    exact ⟨_, .capture n, hadd, hemitted, .capture n, List.prefix_rfl, Nat.le_succ _, rfl, rfl⟩
  | named name =>
    obtain ⟨cf, i, hindex, hnames, hcount, hi⟩ := get_variable_index_ok sc.cf (hname name rfl)
    have hone : named_count [.named name] = 1 := rfl
    have hpush : sc.flushes.push_n true [i] =
        some { sc.flushes with elts := sc.flushes.elts ++ [i] } := by
      rw [NgxArray.push_n, if_pos]
      rw [List.length_singleton]
      omega
    obtain ⟨lengths, values, hadd, hemitted⟩ := h.add fresh (.var i)
      { sc with
        nvariables := sc.nvariables + 1, cf
        flushes := { sc.flushes with elts := sc.flushes.elts ++ [i] } } rfl rfl h.zero rfl
    rw [Item.size_var] at hadd
    refine ⟨_, .var i, ?_, hemitted, .named hi, hnames, hcount, rfl, by simp [hone]⟩
    simp only [add_piece, add_var_code, hindex, hpush]
    exact hadd

/-! The loop over a template. -/

theorem compile_body_cons (sc : Compile H) (ch : UInt8) (source : List UInt8) :
    compile_body program fresh memory (sc, ch :: source) =
      match next_token ch source with
      | .error e => ok (.done (.error e))
      | .ok (piece, rest) => add_piece program fresh memory sc rest piece >>= fun r =>
        match r with
        | .error e => ok (.done (.error e))
        | .ok sc => ok (.cont (sc, rest)) := by
  simp only [compile_body, compile_next_eq]
  cases next_token ch source with
  | error e => rfl
  | ok next =>
    obtain ⟨piece, rest⟩ := next
    dsimp only
    obtain ⟨r, hr⟩ := add_piece_total program fresh memory sc rest piece
    rw [hr]
    cases r <;> rfl

/-- A template that is compiled consists of pieces. -/
theorem reads_of_compile {sc sc' : Compile H} {source : List UInt8}
    (h : script_compile program fresh memory sc source = ok (.ok sc')) :
    ∃ pieces, Reads source pieces := by
  refine loop_invariant
    (fun x : Compile H × List UInt8 => (∃ pieces, Reads x.2 pieces) → ∃ pieces, Reads source pieces)
    (fun r : Except ScriptError (Compile H) => (∃ sc, r = .ok sc) → ∃ pieces, Reads source pieces)
    ?_ ?_ id h ⟨sc', rfl⟩
  · rintro ⟨u, rest⟩ next hu hbody ⟨pieces, hreads⟩
    cases rest with
    | nil => simp [compile_body, bind_eq_ok_iff] at hbody
    | cons ch rest =>
      rw [compile_body_cons] at hbody
      cases htoken : next_token ch rest with
      | error e => simp [htoken] at hbody
      | ok token =>
        obtain ⟨piece, behind⟩ := token
        simp only [htoken, bind_eq_ok_iff] at hbody
        obtain ⟨r, -, hr⟩ := hbody
        cases r with
        | error e => cases hr
        | ok v =>
          cases hr
          exact hu ⟨piece :: pieces, .cons (next_token_iff.mp htoken) hreads⟩
  · rintro ⟨u, rest⟩ r hu hbody ⟨v, rfl⟩
    cases rest with
    | nil => exact hu ⟨[], .nil⟩
    | cons ch rest =>
      rw [compile_body_cons] at hbody
      cases htoken : next_token ch rest with
      | error e => simp [htoken] at hbody
      | ok token =>
        obtain ⟨piece, behind⟩ := token
        simp only [htoken, bind_eq_ok_iff] at hbody
        obtain ⟨r, -, hr⟩ := hbody
        cases r <;> cases hr

/-- What a template is compiled to. -/
structure Compiled (program : Program) (items : List Item) (sc : Compile H) : Prop where
  lengths : sc.lengths.elts = items.flatMap (Item.length_code program) ++ encode SIZEOF_UINTPTR_T 0
  values : ∃ codes, List.Forall₂ (Item.ValueCode program) items codes ∧
    sc.values.elts = codes.flatten ++ encode SIZEOF_UINTPTR_T 0
  flushes : sc.flushes.elts = items.filterMap Item.index

theorem Emitted.done {items : List Item} {sc : Compile H} (h : Emitted program items sc)
    (fresh : Nat → UInt8) :
    ∃ lengths values, script_done program fresh true sc = ok (.ok { sc with lengths, values }) ∧
      Compiled program items { sc with lengths, values } := by
  have hword : (encode SIZEOF_UINTPTR_T 0).length ≤ SIZEOF_UINTPTR_T := (length_encode _ _).le
  obtain ⟨pad, nalloc, hpad, hfirst⟩ := add_code_ok fresh sc.lengths hword
  obtain ⟨pad', nalloc', hpad', hsecond⟩ := add_code_ok fresh sc.values hword
  rw [length_encode] at hpad hpad'
  obtain rfl : pad = [] := List.eq_nil_of_length_eq_zero (by omega)
  obtain rfl : pad' = [] := List.eq_nil_of_length_eq_zero (by omega)
  rw [List.append_nil] at hfirst hsecond
  obtain ⟨codes, hcodes, hflatten⟩ := h.values
  refine ⟨⟨sc.lengths.elts ++ encode SIZEOF_UINTPTR_T 0, nalloc⟩,
    ⟨sc.values.elts ++ encode SIZEOF_UINTPTR_T 0, nalloc'⟩, ?_, ?_, ⟨codes, hcodes, ?_⟩, h.flushes⟩
  · simp only [script_done, complete_codes, h.zero, Bool.false_eq_true, if_false, bind_ok, hfirst, hsecond]
  · rw [← h.lengths]
  · rw [← hflatten]

/-- A template that consists of pieces is compiled to their codes, if there is room for its indices. -/
theorem compile_of_reads (fresh : Nat → UInt8) {template : List UInt8} {pieces : List Piece} (hreads : Reads template pieces)
    {items : List Item} {sc : Compile H} (h : Emitted program items sc)
    (hroom : sc.flushes.elts.length + named_count pieces < sc.flushes.nalloc) {fuel : Nat}
    (hfuel : template.length < fuel) :
    ∃ sc' items', loop (compile_body program fresh true) fuel (sc, template) = ok (.ok sc') ∧
      Compiled program (items ++ items') sc' ∧ List.Forall₂ (Resolves sc'.cf.names) pieces items' ∧
      sc.cf.names <+: sc'.cf.names ∧ sc'.cf.names.length ≤ sc.cf.names.length + pieces.length ∧
      sc'.flushes.nalloc = sc.flushes.nalloc ∧
      sc'.flushes.elts.length = sc.flushes.elts.length + named_count pieces := by
  induction hreads generalizing items sc fuel with
  | nil =>
    obtain ⟨lengths, values, hdone, hcompiled⟩ := h.done fresh
    refine ⟨{ sc with lengths, values }, [], loop_of_done (by omega) ?_, by rwa [List.append_nil], .nil,
      List.prefix_rfl, le_refl _, rfl, rfl⟩
    simp only [compile_body, hdone, bind_ok]
  | @cons template piece rest pieces htoken hreads ih =>
    have hcount : named_count (piece :: pieces) = named_count [piece] + named_count pieces := by
      simp only [named_count, List.countP_cons, List.countP_nil]
      omega
    rw [hcount] at hroom ⊢
    obtain ⟨sc₁, item, hadd, hemitted, hresolves, hnames, hlength, hnalloc, hflushes⟩ :=
      add_piece_ok fresh h htoken (by omega)
    have hshort := htoken.length_lt
    obtain ⟨fuel, rfl⟩ : ∃ n, fuel = n + 1 := ⟨fuel - 1, by omega⟩
    obtain ⟨sc', items', hloop, hcompiled, hall, hnames', hlength', hnalloc', hflushes'⟩ :=
      ih hemitted (by omega) (Nat.lt_of_succ_lt_succ (Nat.lt_of_le_of_lt hshort hfuel))
    have hbody : compile_body program fresh true (sc, template) = ok (.cont (sc₁, rest)) := by
      cases template with
      | nil => exact absurd hshort (Nat.not_lt_zero _)
      | cons ch source => simp only [compile_body_cons, next_token_iff.mpr htoken, hadd, bind_ok]
    refine ⟨sc', item :: items', ?_, ?_, .cons (hresolves.mono hnames') hall, hnames.trans hnames', ?_,
      hnalloc'.trans hnalloc, by omega⟩
    · rw [loop_of_cont hbody, hloop]
    · rwa [List.append_assoc, List.singleton_append] at hcompiled
    · rw [List.length_cons]
      omega

/-- The compiler comes to an end on every template. -/
theorem script_compile_total (program : Program) (fresh : Nat → UInt8) (memory : Bool) (sc : Compile H) (source : List UInt8) :
    ∃ r, script_compile program fresh memory sc source = ok r := by
  refine loop_ok (fun _ => True) (fun x : Compile H × List UInt8 => x.2.length) ?_ trivial
    (Nat.lt_succ_self _)
  rintro ⟨u, rest⟩ -
  cases rest with
  | nil =>
    have hword : (encode SIZEOF_UINTPTR_T 0).length ≤ SIZEOF_UINTPTR_T := (length_encode _ _).le
    have hcodes : ∀ v : Compile H, ∃ r, complete_codes fresh memory v = ok r := by
      intro v
      refine bind_total (add_code_total v.lengths hword) fun r => ?_
      cases r with
      | none => exact ⟨_, rfl⟩
      | some lengths =>
        refine bind_total (add_code_total v.values hword) fun r => ?_
        cases r with
        | none => exact ⟨_, rfl⟩
        | some values => exact ⟨_, rfl⟩
    have hdone : ∃ r, script_done program fresh memory u = ok r := by
      unfold script_done
      split_ifs
      · refine bind_total (add_codes_total _ _ _ _ (le_trans (by simp) (le_align _))) fun r => ?_
        cases r with
        | error e => exact ⟨_, rfl⟩
        | ok v => exact hcodes v
      · exact hcodes u
    obtain ⟨r, hr⟩ := hdone
    exact ⟨.done r, by simp only [compile_body, hr, bind_ok], fun next hnext => by cases hnext⟩
  | cons ch rest =>
    rw [compile_body_cons]
    cases htoken : next_token ch rest with
    | error e => exact ⟨_, rfl, fun next hnext => by cases hnext⟩
    | ok token =>
      obtain ⟨piece, behind⟩ := token
      obtain ⟨r, hr⟩ := add_piece_total program fresh memory u behind
        piece
      dsimp only
      rw [hr, bind_ok]
      cases r with
      | error e => exact ⟨_, rfl, fun next hnext => by cases hnext⟩
      | ok v =>
        refine ⟨_, rfl, fun next hnext => ?_⟩
        cases hnext
        exact ⟨trivial, (next_token_iff.mp htoken).length_lt⟩

end

end ngx_nsoc_script
