import NoiseSocket.Variables.Prefix

open Exec Exec.Result

namespace ngx_nsoc_variables

open ngx_nsoc

/-- The place of the first name that is the same but for case. -/
def index_of (names : List (List UInt8)) (name : List UInt8) : Option Nat :=
  names.findIdx? fun known => name.length = known.length ∧ ngx_strncasecmp name known name.length = 0

/-- The names of the indexed variables. -/
def MainConf.names {H : Type} (cmcf : MainConf H) : List (List UInt8) := cmcf.indexed.map Variable.name

theorem ngx_tolower_tolower (c : UInt8) : ngx_tolower (ngx_tolower c) = ngx_tolower c := by
  obtain ⟨n, hn, rfl⟩ : ∃ n < 256, c = UInt8.ofNat n := ⟨c.toNat, c.toNat_lt, UInt8.ofNat_toNat.symm⟩
  have hall : ∀ n < 256, ngx_tolower (ngx_tolower (UInt8.ofNat n)) = ngx_tolower (UInt8.ofNat n) := by
    decide +kernel
  exact hall n hn

theorem ngx_strlow_strlow (name : List UInt8) : ngx_strlow (ngx_strlow name) = ngx_strlow name := by
  rw [ngx_strlow, ngx_strlow, List.map_map]
  exact List.map_congr_left fun c _ => ngx_tolower_tolower c

section

variable {H : Type} {name : List UInt8} {names names' : List (List UInt8)} {i : Nat}

theorem find_registered_snd (name : List UInt8) (registered : List (Variable H)) :
    (find_registered name registered).map Prod.snd = index_of (registered.map Variable.name) name := by
  have hfind : ∀ (registered : List (Variable H)) (k : Nat),
      ((registered.zipIdx k).find? fun v =>
          name.length = v.1.name.length ∧ ngx_strncasecmp name v.1.name name.length = 0).map Prod.snd =
        (index_of (registered.map Variable.name) name).map (· + k) := by
    intro registered
    induction registered with
    | nil => intro k; rfl
    | cons v rest ih =>
      intro k
      simp only [index_of, List.zipIdx_cons, List.map_cons, List.find?_cons, List.findIdx?_cons] at ih ⊢
      by_cases hsame : name.length = v.name.length ∧ ngx_strncasecmp name v.name name.length = 0
      · have hfirst := decide_eq_true hsame
        simp only [hfirst, if_true]
        simp
      · simp only [hsame, decide_false, Bool.false_eq_true, if_false]
        rw [ih (k + 1), Option.map_map]
        congr 1
        funext j
        simp only [Function.comp_apply]
        omega
  have h := hfind registered 0
  rwa [Option.map_congr (g := id) (fun j _ => Nat.add_zero j), Option.map_id, id] at h

/-- The variables that come later do not take a name away. -/
theorem index_of_append (h : index_of names name = some i) (hnames : names <+: names') :
    index_of names' name = some i := by
  obtain ⟨more, rfl⟩ := hnames
  unfold index_of at h ⊢
  rw [List.findIdx?_append, h, Option.some_or]

theorem index_of_lt (h : index_of names name = some i) : i < names.length := by
  obtain ⟨hlt, -⟩ := List.findIdx?_eq_some_iff_getElem.mp h
  exact hlt

/-- A name gets an index, and the other indices stay. -/
theorem get_variable_index_ok (cf : MainConf H) (hname : name ≠ []) :
    ∃ cf' i, get_variable_index true cf name = .ok (cf', i) ∧ cf.names <+: cf'.names ∧
      cf'.names.length ≤ cf.names.length + 1 ∧ index_of cf'.names name = some i := by
  have hlength : ¬name.length = 0 := fun hzero => hname (List.eq_nil_of_length_eq_zero hzero)
  have hindex := find_registered_snd name cf.indexed
  cases hfind : find_registered name cf.indexed with
  | some found =>
    obtain ⟨v, i⟩ := found
    rw [hfind] at hindex
    refine ⟨cf, i, ?_, List.prefix_rfl, Nat.le_succ _, hindex.symm⟩
    simp [get_variable_index, hlength, hfind]
  | none =>
    rw [hfind] at hindex
    refine ⟨_, _, by simp only [get_variable_index, hlength, hfind, if_false, if_true]; rfl, ?_, ?_, ?_⟩
    · simp [MainConf.names]
    · simp [MainConf.names]
    · have hsame : ngx_strncasecmp name (ngx_strlow name) name.length = 0 := by
        rw [ngx_strncasecmp, ngx_strlow_strlow, ngx_strncmp_self]
      have hlow : (ngx_strlow name).length = name.length := List.length_map _
      have hlast : index_of [ngx_strlow name] name = some 0 := by
        simp [index_of, hsame, hlow]
      simp only [MainConf.names, List.map_append, List.map_cons, List.map_nil, Variable.new]
      unfold index_of at hindex hlast ⊢
      rw [List.findIdx?_append, ← hindex, hlast]
      simp

end

/-- A configuration that is complete: it has kept the variables of an earlier one, and each variable
has a handler. -/
structure Serves {H : Type} (cf cmcf : MainConf H) : Prop where
  names : cf.names <+: cmcf.names
  handled : ∀ v ∈ cmcf.indexed, v.get_handler.isSome

section

variable {H : Type} {rc : Int} {cf cmcf : MainConf H}

theorem init_prefix_var_ok {pv : List (Variable H)} {v v' : Variable H}
    (hpv : ∀ av ∈ pv, av.get_handler.isSome) (h : init_prefix_var pv v = .ok v') :
    v'.name = v.name ∧ v'.get_handler.isSome := by
  unfold init_prefix_var at h
  split at h
  · rename_i av hav
    obtain ⟨n, -, hn⟩ := Option.bind_eq_some_iff.mp hav
    obtain rfl := Except.ok.inj h
    exact ⟨rfl, hpv av (List.mem_of_getElem? hn)⟩
  · split_ifs at h with hnone
    obtain rfl := Except.ok.inj h
    refine ⟨rfl, ?_⟩
    cases hhandler : v.get_handler with
    | none => simp [hhandler] at hnone
    | some handler => rfl

theorem init_var_ok {pv keys keys' : List (Variable H)} {i : Nat} {v v' : Variable H}
    (hpv : ∀ av ∈ pv, av.get_handler.isSome) (h : init_var pv i v keys = .ok (v', keys')) :
    v'.name = v.name ∧ v'.get_handler.isSome := by
  unfold init_var at h
  split at h
  · rename_i av n hfind
    dsimp only at h
    split_ifs at h with hprefix
    · obtain ⟨w, hw, hr⟩ := map_fst_eq_ok h
      obtain ⟨rfl, -⟩ := Prod.mk.inj hr
      obtain ⟨hname, hhandler⟩ := init_prefix_var_ok hpv hw
      exact ⟨hname, hhandler⟩
    · obtain ⟨rfl, -⟩ := Prod.mk.inj (Except.ok.inj h)
      refine ⟨rfl, ?_⟩
      cases hhandler : av.get_handler with
      | none => simp [hhandler] at hprefix
      | some handler => simp
  · obtain ⟨w, hw, hr⟩ := map_fst_eq_ok h
    obtain ⟨rfl, -⟩ := Prod.mk.inj hr
    exact init_prefix_var_ok hpv hw

theorem init_indexed_ok {pv : List (Variable H)} (hpv : ∀ av ∈ pv, av.get_handler.isSome) {i : Nat}
    {indexed indexed' keys keys' : List (Variable H)}
    (h : init_indexed pv i indexed keys = .ok (indexed', keys')) :
    indexed'.map Variable.name = indexed.map Variable.name ∧ ∀ v ∈ indexed', v.get_handler.isSome := by
  induction indexed generalizing i keys indexed' keys' with
  | nil =>
    obtain ⟨rfl, rfl⟩ := Prod.mk.inj (Except.ok.inj h)
    simp
  | cons v rest ih =>
    rw [init_indexed] at h
    cases hvar : init_var pv i v keys with
    | error e => simp [hvar, bind, Except.bind] at h
    | ok r =>
      cases hrest : init_indexed pv (i + 1) rest r.2 with
      | error e => simp [hvar, hrest, bind, Except.bind] at h
      | ok r' =>
        simp only [hvar, hrest, bind, Except.bind, Except.ok.injEq, Prod.mk.injEq] at h
        obtain ⟨rfl, rfl⟩ := h
        obtain ⟨hname, hhandler⟩ := init_var_ok hpv hvar
        obtain ⟨hnames, hhandlers⟩ := ih hrest
        exact ⟨by rw [List.map_cons, List.map_cons, hname, hnames],
          List.forall_mem_cons.mpr ⟨hhandler, hhandlers⟩⟩

/-- Once the variables are initialised the configuration is complete, if the prefix variables have
handlers. -/
theorem serves_of_init (hpv : ∀ av ∈ cf.prefix_variables, av.get_handler.isSome)
    (hinit : variables_init_vars rc cf = ok (.ok cmcf)) : Serves cf cmcf := by
  unfold variables_init_vars at hinit
  split at hinit
  · cases hinit
  split at hinit
  · cases ok.inj hinit
  rename_i hloop
  split_ifs at hinit
  · cases ok.inj hinit
  obtain rfl := Except.ok.inj (ok.inj hinit)
  obtain ⟨hnames, hhandlers⟩ := init_indexed_ok hpv hloop
  refine ⟨?_, hhandlers⟩
  simp only [MainConf.names, hnames, List.prefix_rfl]

end

end ngx_nsoc_variables
