import Mathlib.Data.List.TakeWhile
import NoiseSocket.Script

open Exec Exec.Result

namespace ngx_nsoc_script

open ngx_nsoc_variables

/-- What a template is made of. -/
inductive Piece where
  | text (bytes : List UInt8)
  | named (name : List UInt8)
  | capture (n : Nat)
deriving DecidableEq, Repr

/-- A name of one or more letters, digits and underscores. -/
structure IsName (name : List UInt8) : Prop where
  nonempty : name ≠ []
  chars : ∀ ch ∈ name, name_char ch

/-- What may stand behind a `$`: a capture, a name, or a name in braces. -/
def Begins (rest : List UInt8) : Prop :=
  (∃ ch behind, rest = ch :: behind ∧ capture_digit ch) ∨
    (∃ name behind, rest = name ++ behind ∧ IsName name) ∨
    ∃ name behind, rest = 123 :: (name ++ 125 :: behind) ∧ IsName name

/-- Every `$` of a template begins a capture, a name, or a name in braces. -/
def WellFormed (template : List UInt8) : Prop :=
  ∀ before rest, template = before ++ 36 :: rest → Begins rest

/-- The first piece of a template and what is behind it. Texts and names are as long as they can be. -/
inductive Token : List UInt8 → Piece → List UInt8 → Prop where
  | text {bytes rest} : bytes ≠ [] → 36 ∉ bytes → (∀ ch ∈ rest.head?, ch = 36) →
      Token (bytes ++ rest) (.text bytes) rest
  | capture {ch rest} : capture_digit ch → Token (36 :: ch :: rest) (.capture (ch.toNat - 48)) rest
  | named {name rest} : IsName name → (∀ ch ∈ name.head?, ¬capture_digit ch) →
      (∀ ch ∈ rest.head?, ¬name_char ch) → Token (36 :: (name ++ rest)) (.named name) rest
  | braced {name rest} : IsName name → Token (36 :: 123 :: (name ++ 125 :: rest)) (.named name) rest

/-- The pieces of a template, in order. -/
inductive Reads : List UInt8 → List Piece → Prop where
  | nil : Reads [] []
  | cons {template piece rest pieces} : Token template piece rest → Reads rest pieces →
      Reads template (piece :: pieces)

/-- The end of a variable, behind `$` and an opening bracket. -/
def next_name (bracket : Bool) (source : List UInt8) : Except ScriptError (Piece × List UInt8) :=
  let r := scan_name bracket source
  if r.2.1 then .error (.closing_bracket r.1)
  else if r.1.length = 0 then .error .invalid_variable
  else .ok (.named r.1, r.2.2)

/-- The piece that the loop over a template comes to. -/
def next_token (ch : UInt8) (source : List UInt8) : Except ScriptError (Piece × List UInt8) :=
  if ch = 36 then
    match source with
    | [] => .error .invalid_variable
    | ch :: rest =>
      if capture_digit ch then .ok (.capture (ch.toNat - 48), rest)
      else if ch = 123 then if rest = [] then .error .invalid_variable else next_name true rest
      else next_name false (ch :: rest)
  else .ok (.text (ch :: source.takeWhile (· ≠ 36)), source.dropWhile (· ≠ 36))

theorem not_name_char_dollar : ¬name_char 36 := by decide

theorem not_name_char_closing : ¬name_char 125 := by decide

theorem IsName.not_mem {name : List UInt8} (h : IsName name) {ch : UInt8} (hch : ¬name_char ch) :
    ch ∉ name := fun hmem => hch (h.chars ch hmem)

theorem IsName.length_pos {name : List UInt8} (h : IsName name) : name.length ≠ 0 :=
  fun hzero => h.nonempty (List.eq_nil_of_length_eq_zero hzero)

/-! The loop over a name. -/

section

variable {name source rest : List UInt8} {bracket : Bool}

theorem scan_name_append (hname : ∀ ch ∈ name, name_char ch) :
    scan_name bracket (name ++ rest) =
      (name ++ (scan_name bracket rest).1, (scan_name bracket rest).2) := by
  induction name with
  | nil => rfl
  | cons ch name ih =>
    have hch := hname ch List.mem_cons_self
    have hne : ¬(ch = 125 ∧ bracket) := by
      rintro ⟨rfl, -⟩
      exact not_name_char_closing hch
    rw [List.cons_append, scan_name, if_neg hne, if_pos hch,
      ih fun c hc => hname c (List.mem_cons_of_mem ch hc)]
    rfl

/-- What the loop has taken is a part of a name, and it stops at the first byte that is not. -/
theorem scan_name_spec (bracket : Bool) (source : List UInt8) :
    (∀ ch ∈ (scan_name bracket source).1, name_char ch) ∧
      ((scan_name bracket source).2.1 = bracket ∧
          source = (scan_name bracket source).1 ++ (scan_name bracket source).2.2 ∧
          (∀ ch ∈ (scan_name bracket source).2.2.head?, ¬name_char ch) ∨
        bracket = true ∧ (scan_name bracket source).2.1 = false ∧
          source = (scan_name bracket source).1 ++ 125 :: (scan_name bracket source).2.2) := by
  induction source with
  | nil => exact ⟨by simp [scan_name], .inl ⟨rfl, rfl, by simp [scan_name]⟩⟩
  | cons ch source ih =>
    rw [scan_name]
    by_cases hclosing : ch = 125 ∧ bracket
    · rw [if_pos hclosing]
      obtain ⟨rfl, hbracket⟩ := hclosing
      exact ⟨by simp, .inr ⟨hbracket, rfl, rfl⟩⟩
    rw [if_neg hclosing]
    by_cases hch : name_char ch
    · rw [if_pos hch]
      obtain ⟨hname, hstop⟩ := ih
      refine ⟨?_, ?_⟩
      · intro c hc
        obtain rfl | hc := List.mem_cons.mp hc
        · exact hch
        · exact hname c hc
      · obtain ⟨hopen, hsource, hhead⟩ | ⟨hbracket, hopen, hsource⟩ := hstop
        · exact .inl ⟨hopen, congrArg (ch :: ·) hsource, hhead⟩
        · exact .inr ⟨hbracket, hopen, congrArg (ch :: ·) hsource⟩
    · rw [if_neg hch]
      exact ⟨by simp, .inl ⟨rfl, rfl, by simpa using hch⟩⟩

theorem next_name_named (hname : IsName name) (hrest : ∀ ch ∈ rest.head?, ¬name_char ch) :
    next_name false (name ++ rest) = .ok (.named name, rest) := by
  have hscan : scan_name false rest = ([], false, rest) := by
    cases rest with
    | nil => rfl
    | cons ch rest => simp [scan_name, hrest ch (by simp)]
  simp [next_name, scan_name_append hname.chars, hscan, hname.nonempty]

theorem next_name_braced (hname : IsName name) :
    next_name true (name ++ 125 :: rest) = .ok (.named name, rest) := by
  have hscan : scan_name true (125 :: rest) = ([], false, rest) := by simp [scan_name]
  simp [next_name, scan_name_append hname.chars, hscan, hname.nonempty]

theorem next_name_ok {piece : Piece} (h : next_name bracket source = .ok (piece, rest)) :
    ∃ name, piece = .named name ∧ IsName name ∧
      (bracket = false ∧ source = name ++ rest ∧ (∀ ch ∈ rest.head?, ¬name_char ch) ∨
        bracket = true ∧ source = name ++ 125 :: rest) := by
  obtain ⟨hname, hstop⟩ := scan_name_spec bracket source
  unfold next_name at h
  dsimp only at h
  split_ifs at h with hopen hempty
  obtain ⟨rfl, rfl⟩ := Prod.mk.inj (Except.ok.inj h)
  refine ⟨_, rfl, ⟨fun hnil => hempty (by rw [hnil, List.length_nil]), hname⟩, ?_⟩
  obtain ⟨hbracket, hsource, hhead⟩ | ⟨hbracket, -, hsource⟩ := hstop
  · exact .inl ⟨by rw [← hbracket]; exact Bool.eq_false_iff.mpr hopen, hsource, hhead⟩
  · exact .inr ⟨hbracket, hsource⟩

end

/-- The loop comes to the first piece of the template. -/
theorem next_token_iff {ch : UInt8} {source rest : List UInt8} {piece : Piece} :
    next_token ch source = .ok (piece, rest) ↔ Token (ch :: source) piece rest := by
  constructor
  · intro h
    unfold next_token at h
    by_cases hdollar : ch = 36
    · subst hdollar
      rw [if_pos rfl] at h
      cases source with
      | nil => cases h
      | cons ch source =>
        dsimp only at h
        split_ifs at h with hdigit hbrace hnil
        · obtain ⟨rfl, rfl⟩ := Prod.mk.inj (Except.ok.inj h)
          exact .capture hdigit
        · obtain ⟨name, rfl, hname, ⟨hfalse, -⟩ | ⟨-, hsource⟩⟩ := next_name_ok h
          · cases hfalse
          · rw [hbrace, hsource]
            exact .braced hname
        · obtain ⟨name, rfl, hname, ⟨-, hsource, hhead⟩ | ⟨hfalse, -⟩⟩ := next_name_ok h
          · rw [hsource]
            refine .named hname ?_ hhead
            intro c hc
            obtain ⟨c', tail, rfl⟩ := List.exists_cons_of_ne_nil hname.nonempty
            obtain rfl := (List.cons.inj hsource).1
            obtain rfl : ch = c := by simpa using hc
            exact hdigit
          · cases hfalse
    · rw [if_neg hdollar] at h
      obtain ⟨rfl, rfl⟩ := Prod.mk.inj (Except.ok.inj h)
      have hsplit : ch :: source =
          (ch :: source.takeWhile (· ≠ 36)) ++ source.dropWhile (· ≠ 36) := by
        rw [List.cons_append, List.takeWhile_append_dropWhile]
      rw [hsplit]
      refine .text (List.cons_ne_nil _ _) ?_ ?_
      · intro hmem
        obtain heq | hmem := List.mem_cons.mp hmem
        · exact hdollar heq.symm
        · simpa using List.mem_takeWhile_imp hmem
      · intro c hc
        have hhead := List.head?_dropWhile_not (fun c : UInt8 => decide (c ≠ 36)) source
        rw [Option.mem_def.mp hc] at hhead
        simpa using hhead
  · intro h
    generalize htemplate : ch :: source = template at h
    cases h with
    | @text bytes rest hne hnot hhead =>
      obtain ⟨c, bytes, rfl⟩ := List.exists_cons_of_ne_nil hne
      rw [List.cons_append] at htemplate
      obtain ⟨rfl, rfl⟩ := List.cons.inj htemplate
      have hch : ch ≠ 36 := fun heq => hnot (by rw [heq]; exact List.mem_cons_self)
      have hbytes : ∀ c ∈ bytes, decide (c ≠ 36) = true := by
        intro c hc
        simp only [ne_eq, decide_eq_true_eq]
        rintro rfl
        exact hnot (List.mem_cons_of_mem _ hc)
      have hstop : rest.takeWhile (fun c => decide (c ≠ 36)) = [] ∧
          rest.dropWhile (fun c => decide (c ≠ 36)) = rest := by
        cases rest with
        | nil => exact ⟨rfl, rfl⟩
        | cons c rest => simp [hhead c (by simp)]
      unfold next_token
      rw [if_neg hch, List.takeWhile_append_of_pos hbytes,
        List.dropWhile_append_of_pos hbytes, hstop.1, hstop.2, List.append_nil]
    | @capture c rest hdigit =>
      obtain ⟨rfl, rfl⟩ := List.cons.inj htemplate
      simp [next_token, hdigit]
    | @named name rest hname hdigit hhead =>
      obtain ⟨rfl, rfl⟩ := List.cons.inj htemplate
      have hstep := next_name_named hname hhead
      obtain ⟨c, name, rfl⟩ := List.exists_cons_of_ne_nil hname.nonempty
      have hbrace : c ≠ 123 := by
        rintro rfl
        exact absurd (hname.chars 123 List.mem_cons_self) (by decide)
      rw [List.cons_append] at hstep
      simp [next_token, hdigit c (by simp), hbrace, hstep]
    | @braced name rest hname =>
      obtain ⟨rfl, rfl⟩ := List.cons.inj htemplate
      have hdigit : ¬capture_digit 123 := by decide
      simp [next_token, hdigit, next_name_braced hname]

theorem Token.length_lt {template rest : List UInt8} {piece : Piece} (h : Token template piece rest) :
    rest.length < template.length := by
  cases h with
  | text hne => simpa using List.length_pos_of_ne_nil hne
  | capture =>
    simp only [List.length_cons]
    omega
  | named =>
    simp only [List.length_cons, List.length_append]
    omega
  | braced =>
    simp only [List.length_cons, List.length_append]
    omega

theorem Token.unique {template rest rest' : List UInt8} {piece piece' : Piece}
    (h : Token template piece rest) (h' : Token template piece' rest') :
    piece = piece' ∧ rest = rest' := by
  cases template with
  | nil => exact absurd h.length_lt (Nat.not_lt_zero _)
  | cons ch source =>
    have heq := (next_token_iff.mpr h).symm.trans (next_token_iff.mpr h')
    exact Prod.mk.inj (Except.ok.inj heq)

/-- A template has one reading. -/
theorem Reads.unique {template : List UInt8} {pieces pieces' : List Piece}
    (h : Reads template pieces) (h' : Reads template pieces') : pieces = pieces' := by
  induction h generalizing pieces' with
  | nil =>
    cases h' with
    | nil => rfl
    | cons htoken _ => exact absurd htoken.length_lt (Nat.not_lt_zero _)
  | cons htoken _ ih =>
    cases h' with
    | nil => exact absurd htoken.length_lt (Nat.not_lt_zero _)
    | cons htoken' hrest' =>
      obtain ⟨rfl, rfl⟩ := htoken.unique htoken'
      rw [ih hrest']

/-! The templates that can be read are the well-formed ones. -/

/-- A template that can be read begins as it should, if it begins with `$`. -/
theorem Token.begins {template rest : List UInt8} {piece : Piece} (h : Token template piece rest)
    {behind : List UInt8} (hdollar : template = 36 :: behind) : Begins behind := by
  cases h with
  | @text bytes rest hne hnot =>
    obtain ⟨c, bytes, rfl⟩ := List.exists_cons_of_ne_nil hne
    obtain ⟨rfl, -⟩ := List.cons.inj hdollar
    exact absurd List.mem_cons_self hnot
  | capture hdigit =>
    obtain rfl := (List.cons.inj hdollar).2
    exact .inl ⟨_, _, rfl, hdigit⟩
  | named hname =>
    obtain rfl := (List.cons.inj hdollar).2
    exact .inr (.inl ⟨_, _, rfl, hname⟩)
  | braced hname =>
    obtain rfl := (List.cons.inj hdollar).2
    exact .inr (.inr ⟨_, _, rfl, hname⟩)

/-- A `$` is at the front of a piece. -/
theorem Token.split {template rest : List UInt8} {piece : Piece} (h : Token template piece rest) :
    ∃ ch taken, template = ch :: (taken ++ rest) ∧ 36 ∉ taken := by
  cases h with
  | @text bytes rest hne hnot =>
    obtain ⟨c, bytes, rfl⟩ := List.exists_cons_of_ne_nil hne
    exact ⟨c, bytes, rfl, fun hmem => hnot (List.mem_cons_of_mem c hmem)⟩
  | @capture ch rest hdigit =>
    refine ⟨36, [ch], rfl, ?_⟩
    intro hmem
    obtain rfl := List.mem_singleton.mp hmem
    exact absurd hdigit (by decide)
  | @named name rest hname =>
    exact ⟨36, name, rfl, hname.not_mem not_name_char_dollar⟩
  | @braced name rest hname =>
    refine ⟨36, 123 :: (name ++ [125]), by simp, ?_⟩
    have hnot := hname.not_mem not_name_char_dollar
    simp [hnot]

theorem exists_token {ch : UInt8} {source : List UInt8}
    (h : ∀ behind, ch :: source = 36 :: behind → Begins behind) :
    ∃ piece rest, Token (ch :: source) piece rest := by
  by_cases hdollar : ch = 36
  · subst hdollar
    obtain ⟨c, behind, rfl, hdigit⟩ | ⟨name, behind, rfl, hname⟩ | ⟨name, behind, rfl, hname⟩ :=
      h source rfl
    · exact ⟨_, _, .capture hdigit⟩
    · obtain ⟨c, name, rfl⟩ := List.exists_cons_of_ne_nil hname.nonempty
      by_cases hdigit : capture_digit c
      · exact ⟨_, _, .capture hdigit⟩
      -- the name goes on as far as it can
      have hsplit : name ++ behind =
          name ++ behind.takeWhile (fun c => decide (name_char c)) ++
            behind.dropWhile (fun c => decide (name_char c)) := by
        rw [List.append_assoc, List.takeWhile_append_dropWhile]
      rw [List.cons_append, hsplit, ← List.cons_append]
      refine ⟨_, _, .named ⟨List.cons_ne_nil _ _, ?_⟩ (by simpa using hdigit) ?_⟩
      · intro d hd
        rw [← List.cons_append] at hd
        obtain hd | hd := List.mem_append.mp hd
        · exact hname.chars d hd
        · simpa using List.mem_takeWhile_imp hd
      · intro d hd
        have hhead := List.head?_dropWhile_not (fun c => decide (name_char c)) behind
        rw [Option.mem_def.mp hd] at hhead
        simpa using hhead
    · exact ⟨_, _, .braced hname⟩
  · have hnext : next_token ch source = .ok (.text (ch :: source.takeWhile (· ≠ 36)),
        source.dropWhile (· ≠ 36)) := by
      unfold next_token
      rw [if_neg hdollar]
    exact ⟨_, _, next_token_iff.mp hnext⟩

/-- A template is well formed if its first piece can be read, and what is behind it is. -/
theorem wellFormed_iff {template rest : List UInt8} {piece : Piece} (h : Token template piece rest) :
    WellFormed template ↔ WellFormed rest := by
  obtain ⟨ch, taken, hsplit, hnot⟩ := h.split
  constructor
  · intro hall before behind hrest
    refine hall (ch :: taken ++ before) behind ?_
    rw [hsplit, hrest]
    simp
  · intro hall before behind htemplate
    cases before with
    | nil => exact h.begins htemplate
    | cons c before =>
      rw [hsplit, List.cons_append] at htemplate
      obtain ⟨-, hrest⟩ := List.cons.inj htemplate
      obtain ⟨more, htaken, hbehind⟩ | ⟨more, hbefore, hrest⟩ := List.append_eq_append_iff.mp hrest
      · exact hall more behind hbehind
      · cases more with
        | nil => exact hall [] behind hrest.symm
        | cons d more =>
          obtain ⟨rfl, -⟩ := List.cons.inj hrest
          exact absurd (by rw [hbefore]; simp) hnot

theorem wellFormed_nil : WellFormed [] := by
  intro before rest h
  simp at h

/-- The well-formed templates are those that are made of pieces. -/
theorem wellFormed_iff_reads {template : List UInt8} :
    WellFormed template ↔ ∃ pieces, Reads template pieces := by
  constructor
  · induction hlen : template.length using Nat.strong_induction_on generalizing template with
    | h n ih =>
      intro hall
      cases template with
      | nil => exact ⟨[], .nil⟩
      | cons ch source =>
        obtain ⟨piece, rest, htoken⟩ := exists_token fun behind heq => hall [] behind heq
        obtain ⟨pieces, hreads⟩ := ih rest.length (by rw [← hlen]; exact htoken.length_lt) rfl
          ((wellFormed_iff htoken).mp hall)
        exact ⟨piece :: pieces, .cons htoken hreads⟩
  · rintro ⟨pieces, hreads⟩
    induction hreads with
    | nil => exact wellFormed_nil
    | cons htoken _ ih => exact (wellFormed_iff htoken).mpr ih

end ngx_nsoc_script
