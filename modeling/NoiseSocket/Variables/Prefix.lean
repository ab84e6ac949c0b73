import NoiseSocket.Variables
import Mathlib.Data.List.Basic

open Exec Exec.Result

namespace ngx_nsoc_variables

open ngx_nsoc

/-- A name begins with another one, as the loops compare them. -/
def prefix_of (p name : List UInt8) : Prop :=
  p.length ≤ name.length ∧ ngx_strncmp name p p.length = 0

instance (p name : List UInt8) : Decidable (prefix_of p name) :=
  inferInstanceAs (Decidable (_ ∧ _))

/-- Two names are the same, as `ngx_nsoc_variables_init_vars` compares them. -/
def is_same (name key : List UInt8) : Prop :=
  name.length = key.length ∧ ngx_strncmp name key name.length = 0

/-- What a scan for the longest prefix is to choose: none if no registered name is a prefix, else one
that no other prefix exceeds. -/
inductive LongestPrefix {H : Type} (name : List UInt8) (pv : List (Variable H)) : Option Nat → Prop
  | none (hnone : ∀ v ∈ pv, ¬prefix_of v.name name) : LongestPrefix name pv none
  | some {n : Nat} {v : Variable H} (hv : pv[n]? = some v) (hfront : prefix_of v.name name)
    (hlongest : ∀ w ∈ pv, prefix_of w.name name → w.name.length ≤ v.name.length) :
    LongestPrefix name pv (some n)

/-- The lengths of the registered prefixes of a name, in the order they were registered. -/
def prefix_lengths {H : Type} (name : List UInt8) (pv : List (Variable H)) : List Nat :=
  (pv.filter fun v => prefix_of v.name name).map fun v => v.name.length

/-- A prefix as long as the name is registered, or the prefix of it registered last is the longest. -/
def LastIsLongest {H : Type} (name : List UInt8) (pv : List (Variable H)) : Prop :=
  name.length ∈ prefix_lengths name pv ∨
    ∀ len ∈ prefix_lengths name pv, len ≤ (prefix_lengths name pv).getLastD 0

instance {H : Type} (name : List UInt8) (pv : List (Variable H)) : Decidable (LastIsLongest name pv) :=
  inferInstanceAs (Decidable (_ ∨ _))

/-- The prefix variables that modules have registered, and have set the handlers of. -/
inductive Registered {H : Type} : List (Variable H) → Prop
  | init : Registered []
  | add {cmcf cmcf' : MainConf H} {memory : Bool} {rc : Int} {name : List UInt8} {flags : UInt64}
    {n : Nat} (hpv : Registered cmcf.prefix_variables)
    (hadd : add_variable memory rc cmcf name flags = ok (.ok (cmcf', n))) :
    Registered cmcf'.prefix_variables
  | set {pv pv' : List (Variable H)} (hpv : Registered pv)
    (hset : pv'.map Variable.name = pv.map Variable.name) : Registered pv'

theorem ngx_strncmp_cons (c₁ c₂ : UInt8) (s₁ s₂ : List UInt8) (n : Nat) :
    ngx_strncmp (c₁ :: s₁) (c₂ :: s₂) (n + 1) =
      if c₁ ≠ c₂ then (c₁.toNat - c₂.toNat : Int) else if c₁ = 0 then 0 else ngx_strncmp s₁ s₂ n := rfl

/-- Against a name without a zero byte the comparison is that of the bytes. -/
theorem ngx_strncmp_eq_zero {p name : List UInt8} (hp : 0 ∉ p) (hlen : p.length ≤ name.length) :
    ngx_strncmp name p p.length = 0 ↔ p <+: name := by
  induction p generalizing name with
  | nil => simp [ngx_strncmp]
  | cons c p ih =>
    match name, hlen with
    | d :: name, hlen =>
      simp only [List.mem_cons, not_or] at hp
      rw [List.length_cons, ngx_strncmp_cons, List.cons_prefix_cons]
      by_cases hcd : d = c
      · subst hcd
        rw [if_neg (not_not.mpr rfl), if_neg (Ne.symm hp.1), ih hp.2 (Nat.le_of_succ_le_succ hlen)]
        simp
      · rw [if_pos hcd]
        have hnat : d.toNat ≠ c.toNat := fun h => hcd (UInt8.toNat_inj.mp h)
        exact iff_of_false (by omega) fun h => hcd h.1.symm

theorem ngx_strncmp_self (name : List UInt8) (n : Nat) : ngx_strncmp name name n = 0 := by
  induction n generalizing name with
  | zero => simp [ngx_strncmp]
  | succ n ih =>
    rw [ngx_strncmp, if_neg (not_not.mpr rfl), ih, ite_self]

theorem is_same_self (name : List UInt8) : is_same name name := ⟨rfl, ngx_strncmp_self name _⟩

theorem prefix_of_iff {p name : List UInt8} (hp : 0 ∉ p) : prefix_of p name ↔ p <+: name := by
  constructor
  · intro ⟨hlen, hcmp⟩
    exact (ngx_strncmp_eq_zero hp hlen).mp hcmp
  · intro h
    exact ⟨h.length_le, (ngx_strncmp_eq_zero hp h.length_le).mpr h⟩

section

variable {H : Type} {pv : List (Variable H)} {name : List UInt8}

theorem map_name_set {pv : List (Variable H)} {v v' : Variable H} {n : Nat} (hv : pv[n]? = some v)
    (hname : v'.name = v.name) : (pv.set n v').map Variable.name = pv.map Variable.name := by
  obtain ⟨hn, rfl⟩ := List.getElem?_eq_some_iff.mp hv
  have hself := @List.set_getElem_self _ (pv.map Variable.name) n (by simpa using hn)
  rw [List.getElem_map] at hself
  rw [List.map_set, hname, hself]

theorem length_pos_of_map_eq {pv' : List (Variable H)} (hnames : pv'.map Variable.name = pv.map Variable.name)
    (hpos : ∀ v ∈ pv, 0 < v.name.length) : ∀ v ∈ pv', 0 < v.name.length := by
  intro v hv
  have hname : v.name ∈ pv.map Variable.name := by
    rw [← hnames]
    exact List.mem_map_of_mem hv
  obtain ⟨w, hw, hw_name⟩ := List.mem_map.mp hname
  rw [← hw_name]
  exact hpos w hw

theorem find_registered_some {v : Variable H} {n : Nat} (h : find_registered name pv = some (v, n)) :
    pv[n]? = some v := by
  have hmem := List.mem_of_find?_eq_some h
  simpa using List.mem_zipIdx_iff_getElem?.mp hmem

/-- A prefix variable that is registered is changed in its flags, or comes last. -/
theorem add_prefix_variable_ok {memory : Bool} {flags : UInt64} {pv' : List (Variable H)} {n : Nat}
    (h : add_prefix_variable memory pv name flags = .ok (pv', n)) :
    pv'.map Variable.name = pv.map Variable.name ∨ pv' = pv ++ [.new name flags] := by
  unfold add_prefix_variable at h
  cases hfind : find_registered name pv with
  | some found =>
    left
    obtain ⟨v, i⟩ := found
    have hv := find_registered_some hfind
    rw [hfind] at h
    dsimp only [change_variable] at h
    split_ifs at h
    obtain ⟨rfl, -⟩ := Prod.mk.inj (Except.ok.inj h)
    exact map_name_set hv rfl
  | none =>
    right
    rw [hfind] at h
    dsimp only at h
    split_ifs at h
    exact (Prod.mk.inj (Except.ok.inj h)).1.symm

theorem add_variable_ok {memory : Bool} {rc : Int} {cmcf cmcf' : MainConf H} {flags : UInt64} {n : Nat}
    (h : add_variable memory rc cmcf name flags = ok (.ok (cmcf', n))) :
    cmcf'.prefix_variables.map Variable.name = cmcf.prefix_variables.map Variable.name ∨
      0 < name.length ∧ cmcf'.prefix_variables = cmcf.prefix_variables ++ [.new name flags] := by
  unfold add_variable at h
  by_cases hempty : name.length = 0
  · rw [if_pos hempty] at h
    simp at h
  rw [if_neg hempty] at h
  by_cases hflag : flags &&& NGX_NSOC_VAR_PREFIX ≠ 0
  · rw [if_pos hflag] at h
    cases hadd : add_prefix_variable memory cmcf.prefix_variables name flags with
    | error e => simp [hadd] at h
    | ok r =>
      rw [hadd] at h
      obtain ⟨rfl, -⟩ := Prod.mk.inj (Except.ok.inj (ok.inj h))
      exact (add_prefix_variable_ok hadd).imp_right fun hnew => ⟨Nat.pos_of_ne_zero hempty, hnew⟩
  · rw [if_neg hflag] at h
    left
    cases hkeys : cmcf.variables_keys with
    | none => simp [hkeys] at h
    | some keys =>
      rw [hkeys] at h
      dsimp only at h
      cases hfind : find_registered name keys with
      | some found =>
        rw [hfind] at h
        dsimp only at h
        cases hchange : change_variable keys found.1 found.2 name flags with
        | error e => simp [hchange] at h
        | ok r =>
          rw [hchange] at h
          obtain ⟨rfl, -⟩ := Prod.mk.inj (Except.ok.inj (ok.inj h))
          rfl
      | none =>
        rw [hfind] at h
        dsimp only at h
        split_ifs at h
        · simp at h
        · simp at h
        · obtain ⟨rfl, -⟩ := Prod.mk.inj (Except.ok.inj (ok.inj h))
          rfl

/-- The names of the registered variables are not empty. -/
theorem Registered.length_pos (hpv : Registered pv) : ∀ v ∈ pv, 0 < v.name.length := by
  induction hpv with
  | init => simp
  | @add cmcf cmcf' memory rc name flags n hpv hadd ih =>
    obtain hsame | ⟨hname, hnew⟩ := add_variable_ok hadd
    · exact length_pos_of_map_eq hsame ih
    · rw [hnew]
      intro v hv
      obtain hv | hv := List.mem_append.mp hv
      · exact ih v hv
      · obtain rfl := List.mem_singleton.mp hv
        simpa [Variable.new, ngx_strlow] using hname
  | set hpv hset ih => exact length_pos_of_map_eq hset ih

/-- What the loop over the prefix variables knows of those it has seen: the last prefix, or one that
is as long as the name. -/
inductive Scanned (name : List UInt8) (seen : List (Variable H)) : Nat → Option Nat → Prop
  | none (hnone : ∀ v ∈ seen, ¬prefix_of v.name name) : Scanned name seen 0 none
  | full {n : Nat} {v : Variable H} (hv : seen[n]? = some v) (hfront : prefix_of v.name name)
    (hlen : v.name.length = name.length) : Scanned name seen v.name.length (some n)
  | last {before after : List (Variable H)} {v : Variable H} (hseen : seen = before ++ v :: after)
    (hfront : prefix_of v.name name) (hafter : ∀ w ∈ after, ¬prefix_of w.name name)
    (hless : ∀ w ∈ seen, prefix_of w.name name → w.name.length < name.length) :
    Scanned name seen v.name.length (some before.length)

/-- A prefix that the loop takes, where no other is as long as the name. -/
theorem Scanned.taken {seen : List (Variable H)} {v : Variable H} (hfront : prefix_of v.name name)
    (hless : ∀ w ∈ seen, prefix_of w.name name → w.name.length < name.length) :
    Scanned name (seen ++ [v]) v.name.length (some seen.length) := by
  by_cases hlen : v.name.length = name.length
  · exact .full (by simp) hfront hlen
  · apply Scanned.last (show seen ++ [v] = seen ++ v :: [] from rfl) hfront (by simp)
    intro w hw hwfront
    obtain hw | hw := List.mem_append.mp hw
    · exact hless w hw hwfront
    · obtain rfl := List.mem_singleton.mp hw
      exact Nat.lt_of_le_of_ne hfront.1 hlen

/-- One pass: the new variable takes the place of the one before, unless that is as long as the name. -/
theorem Scanned.step {seen : List (Variable H)} {len : Nat} {av : Option Nat} {v : Variable H}
    (hscan : Scanned name seen len av) (hv : 0 < v.name.length) :
    if v.name.length ≤ name.length ∧ len < name.length ∧ ngx_strncmp name v.name v.name.length = 0
    then Scanned name (seen ++ [v]) v.name.length (some seen.length)
    else Scanned name (seen ++ [v]) len av := by
  split_ifs with hcond
  · have hfront : prefix_of v.name name := ⟨hcond.1, hcond.2.2⟩
    cases hscan with
    | none hnone => exact .taken hfront fun w hw hwfront => (hnone w hw hwfront).elim
    | full hw hwfront hlen => exact (Nat.ne_of_lt hcond.2.1 hlen).elim
    | last hseen hwfront hafter hless => exact .taken hfront hless
  · have hnot (hless : len < name.length) : ¬prefix_of v.name name :=
      fun h => hcond ⟨h.1, hless, h.2⟩
    cases hscan with
    | none hnone =>
      apply Scanned.none
      intro w hw hwfront
      obtain hw | hw := List.mem_append.mp hw
      · exact hnone w hw hwfront
      · obtain rfl := List.mem_singleton.mp hw
        exact hnot (Nat.lt_of_lt_of_le hv hwfront.1) hwfront
    | full hw hwfront hlen =>
      exact .full (by rw [List.getElem?_append_left (List.getElem?_eq_some_iff.mp hw).1, hw]) hwfront hlen
    | @last before after w hseen hwfront hafter hless =>
      have hv_not := hnot (hless w (by simp [hseen]) hwfront)
      apply Scanned.last (show seen ++ [v] = before ++ w :: (after ++ [v]) by simp [hseen]) hwfront
      · intro u hu hu_prefix
        obtain hu | hu := List.mem_append.mp hu
        · exact hafter u hu hu_prefix
        · obtain rfl := List.mem_singleton.mp hu
          exact hv_not hu_prefix
      · intro u hu hu_prefix
        obtain hu | hu := List.mem_append.mp hu
        · exact hless u hu hu_prefix
        · obtain rfl := List.mem_singleton.mp hu
          exact (hv_not hu_prefix).elim

/-- The whole loop. -/
theorem Scanned.init_vars_loop {seen rest : List (Variable H)} {len : Nat} {av : Option Nat}
    (hscan : Scanned name seen len av) (hrest : ∀ v ∈ rest, 0 < v.name.length) :
    ∃ len', Scanned name (seen ++ rest) len' (init_vars_loop name rest seen.length len av) := by
  induction rest generalizing seen len av with
  | nil => exact ⟨len, by simpa [ngx_nsoc_variables.init_vars_loop] using hscan⟩
  | cons v rest ih =>
    simp only [List.mem_cons, forall_eq_or_imp] at hrest
    have hstep := hscan.step hrest.1
    rw [ngx_nsoc_variables.init_vars_loop]
    split_ifs at hstep ⊢
    all_goals
      obtain ⟨len', hscan'⟩ := ih hstep hrest.2
      rw [List.append_assoc, List.length_append] at hscan'
      exact ⟨len', hscan'⟩

/-- The two loops are the same but for how they note that there is no prefix. -/
theorem get_variable_loop_eq (name : List UInt8) (rest : List (Variable H)) (i len n : Nat)
    (av : Option Nat) :
    get_variable_loop name rest i len (av.getD n) = (init_vars_loop name rest i len av).getD n := by
  induction rest generalizing i len av with
  | nil => rfl
  | cons v rest ih =>
    rw [get_variable_loop, init_vars_loop]
    split_ifs
    · exact ih (i + 1) v.name.length (some i)
    · exact ih (i + 1) len av

theorem Scanned.lt_length {seen : List (Variable H)} {len n : Nat}
    (hscan : Scanned name seen len (some n)) : n < seen.length := by
  cases hscan with
  | full hv => exact (List.getElem?_eq_some_iff.mp hv).1
  | last hseen => simp [hseen]

theorem scanned_prefix (name : List UInt8) (hpv : Registered pv) :
    ∃ len, Scanned name pv len (init_prefix_variable name pv) := by
  have hstart : Scanned name ([] : List (Variable H)) 0 none := .none (by simp)
  exact hstart.init_vars_loop hpv.length_pos

/-- Both resolvers choose the same prefix variable. -/
theorem get_prefix_variable_eq (hpv : Registered pv) :
    get_prefix_variable name pv = init_prefix_variable name pv := by
  obtain ⟨len, hscan⟩ := scanned_prefix name hpv
  have hloop := get_variable_loop_eq name pv 0 0 pv.length none
  rw [Option.getD_none, show init_vars_loop name pv 0 0 none = init_prefix_variable name pv from rfl] at hloop
  rw [get_prefix_variable, hloop]
  cases hav : init_prefix_variable name pv with
  | none => simp
  | some n =>
    rw [hav] at hscan
    exact if_pos (Nat.ne_of_lt hscan.lt_length)

theorem prefix_lengths_eq {before after : List (Variable H)} {v : Variable H}
    (hpv : pv = before ++ v :: after) (hfront : prefix_of v.name name)
    (hafter : ∀ w ∈ after, ¬prefix_of w.name name) :
    prefix_lengths name pv = prefix_lengths name before ++ [v.name.length] := by
  have hnone : after.filter (fun w => prefix_of w.name name) = [] := by
    rw [List.filter_eq_nil_iff]
    intro w hw
    simpa using hafter w hw
  rw [prefix_lengths, hpv, List.filter_append, List.filter_cons_of_pos (by simpa using hfront), hnone,
    List.map_append]
  rfl

theorem mem_prefix_lengths {len : Nat} :
    len ∈ prefix_lengths name pv ↔ ∃ v ∈ pv, prefix_of v.name name ∧ v.name.length = len := by
  simp [prefix_lengths, and_assoc]

/-- What a scan has chosen is the longest prefix exactly if the condition on the list holds. -/
theorem Scanned.longest_iff {len : Nat} {av : Option Nat} (hscan : Scanned name pv len av) :
    LongestPrefix name pv av ↔ LastIsLongest name pv := by
  cases hscan with
  | none hnone =>
    have hnil : prefix_lengths name pv = [] := by
      apply List.eq_nil_iff_forall_not_mem.mpr
      intro len hlen
      obtain ⟨v, hv, hfront, -⟩ := mem_prefix_lengths.mp hlen
      exact hnone v hv hfront
    apply iff_of_true (.none hnone)
    right
    simp [hnil]
  | full hv hfront hlen =>
    apply iff_of_true
    · apply LongestPrefix.some hv hfront
      intro w hw hwfront
      rw [hlen]
      exact hwfront.1
    · left
      exact mem_prefix_lengths.mpr ⟨_, List.mem_of_getElem? hv, hfront, hlen⟩
  | @last before after v hseen hfront hafter hless =>
    have hlast : (prefix_lengths name pv).getLastD 0 = v.name.length := by
      rw [prefix_lengths_eq hseen hfront hafter]
      simp
    have hget : pv[before.length]? = some v := by simp [hseen]
    rw [LastIsLongest, hlast]
    constructor
    · rintro (_ | ⟨hv, -, hlongest⟩)
      obtain rfl := Option.some.inj (hget.symm.trans hv)
      right
      intro len hlen
      obtain ⟨w, hw, hwfront, rfl⟩ := mem_prefix_lengths.mp hlen
      exact hlongest w hw hwfront
    · rintro (hfull | hall)
      · obtain ⟨w, hw, hwfront, hlen⟩ := mem_prefix_lengths.mp hfull
        exact (Nat.ne_of_lt (hless w hw hwfront) hlen).elim
      · apply LongestPrefix.some hget hfront
        intro w hw hwfront
        exact hall _ (mem_prefix_lengths.mpr ⟨w, hw, hwfront, rfl⟩)

/-- The variable of an index, where no variable has its name. -/
theorem init_var_unknown {v : Variable H} {keys : List (Variable H)} (i : Nat)
    (hv : ∀ key ∈ keys, ¬is_same v.name key.name) :
    init_var pv i v keys = (init_prefix_var pv v).map fun v => (v, keys) := by
  have hnone : (keys.zipIdx.find? fun key =>
      v.name.length = key.1.name.length ∧ ngx_strncmp v.name key.1.name v.name.length = 0) = none := by
    rw [List.find?_eq_none]
    intro key hkey
    simpa [is_same] using hv key.1 (List.fst_mem_of_mem_zipIdx hkey)
  rw [init_var, hnone]

theorem map_fst_eq_ok {A B C E : Type} {x : Except E A} {f : A → B × C} {r : B × C}
    (h : x.map f = .ok r) : ∃ a, x = .ok a ∧ f a = r := by
  cases x with
  | error e => simp [Except.map] at h
  | ok a => exact ⟨a, rfl, Except.ok.inj h⟩

/-- The variables of the modules keep their names. -/
theorem init_var_names {i : Nat} {v v' : Variable H} {keys keys' : List (Variable H)}
    (h : init_var pv i v keys = .ok (v', keys')) :
    keys'.map Variable.name = keys.map Variable.name := by
  unfold init_var at h
  split at h
  · rename_i av n hfind
    have hmem := List.mem_of_find?_eq_some hfind
    have hav : keys[n]? = some av := by simpa using List.mem_zipIdx_iff_getElem?.mp hmem
    dsimp only at h
    split_ifs at h
    · obtain ⟨w, -, hr⟩ := map_fst_eq_ok h
      rw [← (Prod.mk.inj hr).2]
      exact map_name_set hav rfl
    · rw [← (Prod.mk.inj (Except.ok.inj h)).2]
      exact map_name_set hav rfl
  · obtain ⟨w, -, hr⟩ := map_fst_eq_ok h
    rw [← (Prod.mk.inj hr).2]

/-- The loop over the indexed variables treats each of them by itself, with keys of the same names. -/
theorem init_indexed_getElem {i : Nat} {indexed indexed' keys keys' : List (Variable H)}
    (h : init_indexed pv i indexed keys = .ok (indexed', keys')) :
    keys'.map Variable.name = keys.map Variable.name ∧
      ∀ (k : Nat) (v : Variable H), indexed[k]? = some v → ∃ v' between after,
        between.map Variable.name = keys.map Variable.name ∧
          init_var pv (i + k) v between = .ok (v', after) ∧ indexed'[k]? = some v' := by
  induction indexed generalizing i keys indexed' keys' with
  | nil =>
    obtain ⟨rfl, rfl⟩ := Prod.mk.inj (Except.ok.inj h)
    simp
  | cons v rest ih =>
    rw [init_indexed] at h
    cases hvar : init_var pv i v keys with
    | error e => simp [hvar, bind, Except.bind] at h
    | ok r =>
      cases hrest : init_indexed pv (i + 1) rest r.2 with
      | error e => simp [hvar, hrest, bind, Except.bind] at h
      | ok r' =>
        simp only [hvar, hrest, bind, Except.bind, Except.ok.injEq, Prod.mk.injEq] at h
        obtain ⟨rfl, rfl⟩ := h
        have hnames := init_var_names hvar
        obtain ⟨hkeys, hlater⟩ := ih hrest
        refine ⟨hkeys.trans hnames, fun k w hw => ?_⟩
        cases k with
        | zero =>
          obtain rfl := Option.some.inj hw
          exact ⟨r.1, keys, r.2, rfl, hvar, rfl⟩
        | succ k =>
          obtain ⟨w', between, after, hbetween, hinit, hget⟩ := hlater k w hw
          refine ⟨w', between, after, hbetween.trans hnames, ?_, hget⟩
          rwa [Nat.add_right_comm, Nat.add_assoc] at hinit

theorem not_same_of_map_eq {keys keys' : List (Variable H)}
    (hnames : keys'.map Variable.name = keys.map Variable.name)
    (hexact : ∀ key ∈ keys, ¬is_same name key.name) : ∀ key ∈ keys', ¬is_same name key.name := by
  intro key hkey
  have hmem : key.name ∈ keys.map Variable.name := by
    rw [← hnames]
    exact List.mem_map_of_mem hkey
  obtain ⟨key', hkey', hname⟩ := List.mem_map.mp hmem
  rw [← hname]
  exact hexact key' hkey'

/-- Once the variables are initialised, a name that no variable has gets its value from one prefix
variable, by its index as at run time. -/
theorem init_vars_resolved {S : Type} {rc : Int} {cmcf cmcf' : MainConf H} {keys : List (Variable H)}
    (hpv : Registered cmcf.prefix_variables) (hkeys : cmcf.variables_keys = some keys)
    (hinit : variables_init_vars rc cmcf = ok (.ok cmcf')) {i n : Nat} {v : Variable H}
    (hv : cmcf.indexed[i]? = some v) (hexact : ∀ key ∈ keys, ¬is_same v.name key.name)
    (hn : get_prefix_variable v.name cmcf'.prefix_variables = some n) :
    ∃ av : Variable H, cmcf.prefix_variables[n]? = some av ∧
      cmcf'.indexed[i]? =
        some { v with get_handler := av.get_handler, data := .name v.name, flags := av.flags } ∧
      ∀ (call : Call H S) (vv : Value) (s : Session S) (h : H), av.get_handler = some h →
        get_variable call (some vv) cmcf' s v.name =
          ok (if (call h (.name v.name) vv s).1 = NGX_OK then some (call h (.name v.name) vv s).2.1
            else none, (call h (.name v.name) vv s).2.2) := by
  rw [variables_init_vars, hkeys] at hinit
  dsimp only at hinit
  cases hloop : init_indexed cmcf.prefix_variables 0 cmcf.indexed keys with
  | error e => simp [hloop] at hinit
  | ok r =>
    obtain ⟨indexed', keys'⟩ := r
    rw [hloop] at hinit
    dsimp only at hinit
    split_ifs at hinit
    · simp at hinit
    obtain rfl := Except.ok.inj (ok.inj hinit)
    dsimp only at hn ⊢
    obtain ⟨hnames, hvars⟩ := init_indexed_getElem hloop
    obtain ⟨v', between, after, hbetween, hvar, hget⟩ := hvars i v hv
    have hhash : (keys'.filter fun key => key.flags &&& NGX_NSOC_VAR_NOHASH = 0).find?
        (fun key => key.name = v.name) = none := by
      rw [List.find?_eq_none]
      intro key hkey hname
      apply not_same_of_map_eq hnames hexact key (List.mem_of_mem_filter hkey)
      rw [of_decide_eq_true hname]
      exact is_same_self v.name
    obtain ⟨len, hscan⟩ := scanned_prefix v.name hpv
    have hchoice := hn
    rw [get_prefix_variable_eq hpv] at hchoice
    rw [hchoice] at hscan
    obtain ⟨av, hav⟩ : ∃ av, cmcf.prefix_variables[n]? = some av :=
      ⟨_, List.getElem?_eq_getElem hscan.lt_length⟩
    refine ⟨av, hav, ?_, ?_⟩
    · rw [init_var_unknown _ (not_same_of_map_eq hbetween hexact), init_prefix_var, hchoice,
        Option.bind_some, hav] at hvar
      rw [hget, ← (Prod.mk.inj (Except.ok.inj hvar)).1]
    · intro call vv s h hh
      simp only [get_variable, hhash, hn, hav, Option.bind_some, hh]
      split_ifs
      all_goals rfl

end

/-- The two resolvers choose the same prefix variable; it is the longest prefix of the name, or none
where there is none, exactly if a prefix as long as the name is registered or no prefix of it is longer
than the one registered last. Prefix is meant as `ngx_strncmp` has it, which is the prefix in bytes for
registered names without a zero byte. -/
theorem prefix_variable_iff {H : Type} {pv : List (Variable H)} (hpv : Registered pv)
    (name : List UInt8) :
    (∀ p : List UInt8, 0 ∉ p → (prefix_of p name ↔ p <+: name)) ∧
      (get_prefix_variable name pv = init_prefix_variable name pv ∧
          LongestPrefix name pv (get_prefix_variable name pv) ∧
          LongestPrefix name pv (init_prefix_variable name pv) ↔
        LastIsLongest name pv) := by
  refine ⟨fun p hp => prefix_of_iff hp, ?_⟩
  obtain ⟨len, hscan⟩ := scanned_prefix name hpv
  rw [get_prefix_variable_eq hpv, and_self]
  constructor
  · intro ⟨_, hlongest⟩
    exact hscan.longest_iff.mp hlongest
  · intro hlast
    exact ⟨rfl, hscan.longest_iff.mpr hlast⟩

/-- The prefix variables `a` and `ab`, registered in one order or the other. -/
def short_first : List (Variable Unit) := [.new [97] NGX_NSOC_VAR_PREFIX, .new [97, 98] NGX_NSOC_VAR_PREFIX]

def long_first : List (Variable Unit) := [.new [97, 98] NGX_NSOC_VAR_PREFIX, .new [97] NGX_NSOC_VAR_PREFIX]

/-- Two prefix variables registered one after the other. -/
theorem registered_two {pv : List (Variable Unit)} (name name' : List UInt8) {cmcf cmcf' : MainConf Unit}
    (hfirst : add_variable true NGX_OK ⟨[], [], some [], []⟩ name NGX_NSOC_VAR_PREFIX =
      ok (.ok (cmcf, 0)))
    (hsecond : add_variable true NGX_OK cmcf name' NGX_NSOC_VAR_PREFIX = ok (.ok (cmcf', 1)))
    (hpv : cmcf'.prefix_variables = pv) : Registered pv := by
  rw [← hpv]
  exact .add (.add .init hfirst) hsecond

theorem registered_short_first : Registered short_first :=
  registered_two [97] [97, 98] rfl rfl rfl

theorem registered_long_first : Registered long_first :=
  registered_two [97, 98] [97] rfl rfl rfl

theorem prefix_variable_of_short_first :
    get_prefix_variable [97, 98, 99] short_first = init_prefix_variable [97, 98, 99] short_first ∧
      LongestPrefix [97, 98, 99] short_first (get_prefix_variable [97, 98, 99] short_first) ∧
      LongestPrefix [97, 98, 99] short_first (init_prefix_variable [97, 98, 99] short_first) :=
  (prefix_variable_iff registered_short_first [97, 98, 99]).2.mpr (by decide +kernel)

/-- With `ab` registered before `a`, both resolvers give `abc` to `a`. -/
theorem prefix_variable_of_long_first :
    get_prefix_variable [97, 98, 99] long_first = some 1 ∧
      init_prefix_variable [97, 98, 99] long_first = some 1 ∧
      ¬∀ pv : List (Variable Unit), Registered pv → ∀ name : List UInt8,
        LongestPrefix name pv (get_prefix_variable name pv) ∧
          LongestPrefix name pv (init_prefix_variable name pv) := by
  have hget : get_prefix_variable [97, 98, 99] long_first = some 1 := by decide +kernel
  have hinit : init_prefix_variable [97, 98, 99] long_first = some 1 := by decide +kernel
  refine ⟨hget, hinit, fun h => ?_⟩
  have hchoice := (h long_first registered_long_first [97, 98, 99]).1
  rw [hget] at hchoice
  obtain _ | ⟨hv, -, hlongest⟩ := hchoice
  have hlen := hlongest (.new [97, 98] NGX_NSOC_VAR_PREFIX) (by simp [long_first]) (by decide +kernel)
  obtain rfl := Option.some.inj hv
  exact absurd hlen (by decide)

end ngx_nsoc_variables
