import NoiseSocket.Upstream.Table
import NoiseSocket.Variables.Prefix

open Exec Exec.Result

namespace ngx_nsoc_upstream

open ngx_nsoc
open ngx_nsoc_variables (ngx_strncmp ngx_strncasecmp ngx_strlow ngx_strncmp_self)

theorem ngx_strncmp_symm {s₁ s₂ : List UInt8} {n : Nat} (h : ngx_strncmp s₁ s₂ n = 0) :
    ngx_strncmp s₂ s₁ n = 0 := by
  induction n generalizing s₁ s₂ with
  | zero => simp [ngx_strncmp]
  | succ n ih =>
    rw [ngx_strncmp] at h ⊢
    by_cases hne : s₁.headD 0 ≠ s₂.headD 0
    · have hnat : (s₁.headD 0).toNat ≠ (s₂.headD 0).toNat := fun heq => hne (UInt8.toNat_inj.mp heq)
      rw [if_pos hne] at h
      omega
    · rw [if_neg hne] at h
      have heq : s₁.headD 0 = s₂.headD 0 := not_not.mp hne
      rw [if_neg (not_not.mpr heq.symm), ← heq]
      split_ifs at h ⊢ with hzero
      · rfl
      · exact ih h

theorem ngx_strncmp_trans {s₁ s₂ s₃ : List UInt8} {n : Nat} (h : ngx_strncmp s₁ s₂ n = 0)
    (h' : ngx_strncmp s₂ s₃ n = 0) : ngx_strncmp s₁ s₃ n = 0 := by
  induction n generalizing s₁ s₂ s₃ with
  | zero => simp [ngx_strncmp]
  | succ n ih =>
    have hhead : ∀ {s t : List UInt8}, ngx_strncmp s t (n + 1) = 0 → s.headD 0 = t.headD 0 := by
      intro s t hst
      by_contra hne
      have hnat : (s.headD 0).toNat ≠ (t.headD 0).toNat := fun heq => hne (UInt8.toNat_inj.mp heq)
      rw [ngx_strncmp, if_pos hne] at hst
      omega
    have h₁₂ := hhead h
    have h₂₃ := hhead h'
    rw [ngx_strncmp, if_neg (not_not.mpr h₁₂)] at h
    rw [ngx_strncmp, if_neg (not_not.mpr h₂₃), ← h₁₂] at h'
    rw [ngx_strncmp, if_neg (not_not.mpr (h₁₂.trans h₂₃))]
    split_ifs at h h' ⊢ with hzero
    · rfl
    · exact ih h h'

section

variable {a b c : List UInt8}

theorem same_host_refl (a : List UInt8) : same_host a a := ⟨rfl, ngx_strncmp_self _ _⟩

theorem same_host.symm (h : same_host a b) : same_host b a := by
  obtain ⟨hlen, hcmp⟩ := h
  refine ⟨hlen.symm, ?_⟩
  rw [hlen]
  exact ngx_strncmp_symm hcmp

theorem same_host.trans (h : same_host a b) (h' : same_host b c) : same_host a c := by
  obtain ⟨hlen, hcmp⟩ := h
  obtain ⟨hlen', hcmp'⟩ := h'
  refine ⟨hlen.trans hlen', ?_⟩
  rw [hlen'] at hcmp
  exact ngx_strncmp_trans hcmp hcmp'

end

/-- What an upstream is found by. -/
def UpstreamSrvConf.key (uscf : UpstreamSrvConf) : List UInt8 × Nat := (uscf.host, uscf.port)

def keys (upstreams : List UpstreamSrvConf) : List (List UInt8 × Nat) :=
  upstreams.map UpstreamSrvConf.key

/-- No two upstreams have the same host and the same port. -/
def Distinct (upstreams : List UpstreamSrvConf) : Prop :=
  (keys upstreams).Pairwise fun key key' => ¬ (same_host key.1 key'.1 ∧ key.2 = key'.2)

/-- The URL that `ngx_nsoc_upstream_add` works with. -/
def Requests (core : Core) (text : List UInt8) (flags : Nat) (u : Url) : Prop :=
  (if created flags then some ⟨text, 0, true, 0, false⟩ else core.parse_url true text) = some u

section

variable {core : Core} {u : Url} {text file_name : List UInt8} {flags line i k : Nat}
  {upstreams upstreams' : List UpstreamSrvConf}

/-- An upstream that is found. -/
theorem upstream_add_loop_some (h : upstream_add_loop u flags i upstreams = .ok (some k)) :
    ∃ n uscf, k = i + n ∧ upstreams[n]? = some uscf ∧ same_host uscf.host u.host ∧ uscf.port = u.port ∧
      (created flags = true → uscf.no_port = true) := by
  induction upstreams generalizing i with
  | nil => cases h
  | cons uscf rest ih =>
    have hlater : upstream_add_loop u flags (i + 1) rest = .ok (some k) →
        ∃ n uscf', k = i + n ∧ (uscf :: rest)[n]? = some uscf' ∧ same_host uscf'.host u.host ∧
          uscf'.port = u.port ∧ (created flags = true → uscf'.no_port = true) := by
      intro hrest
      obtain ⟨n, uscf', hk, hn, hfound⟩ := ih hrest
      exact ⟨n + 1, uscf', by omega, by simpa using hn, hfound⟩
    unfold upstream_add_loop at h
    by_cases hsame : same_host uscf.host u.host
    · rw [if_neg (not_not.mpr hsame)] at h
      split_ifs at h with hduplicate hport hblock hother
      · exact hlater h
      · cases h
        refine ⟨0, uscf, rfl, rfl, hsame, not_not.mp hother, ?_⟩
        intro hcreate
        simpa [hcreate] using hblock
    · rw [if_pos hsame] at h
      exact hlater h

/-- No upstream is found: the host and the port are new. -/
theorem upstream_add_loop_none (h : upstream_add_loop u flags i upstreams = .ok none) :
    ∀ uscf ∈ upstreams, same_host uscf.host u.host → uscf.port ≠ u.port := by
  induction upstreams generalizing i with
  | nil =>
    intro uscf hmem
    cases hmem
  | cons first rest ih =>
    unfold upstream_add_loop at h
    intro uscf hmem hsame
    obtain rfl | hrest := List.mem_cons.mp hmem
    · rw [if_neg (not_not.mpr hsame)] at h
      split_ifs at h with hduplicate hport hblock hother
      · exact hother
      · cases h
    · by_cases hfirst : same_host first.host u.host
      · rw [if_neg (not_not.mpr hfirst)] at h
        split_ifs at h with hduplicate hport hblock hother
        · exact ih h uscf hrest hsame
        · cases h
      · rw [if_pos hfirst] at h
        exact ih h uscf hrest hsame

/-- What `ngx_nsoc_upstream_add` does: it finds an upstream, of which it may set the flags, or it appends a
new one. -/
theorem upstream_add_cases (h : upstream_add core text flags file_name line upstreams = .ok (i, upstreams')) :
    ∃ u, Requests core text flags u ∧
      ((∃ uscf, upstreams[i]? = some uscf ∧ same_host uscf.host u.host ∧ uscf.port = u.port ∧
          (created flags = true → uscf.no_port = true) ∧
          upstreams' = if created flags then upstreams.modify i fun uscf => { uscf with flags }
            else upstreams) ∨
        ((∀ uscf ∈ upstreams, same_host uscf.host u.host → uscf.port ≠ u.port) ∧ i = upstreams.length ∧
          upstreams' = upstreams ++ [u.upstream flags file_name line])) := by
  unfold upstream_add at h
  split at h
  · cases h
  · rename_i u hu
    refine ⟨u, hu, ?_⟩
    split at h
    · cases h
    · rename_i k hloop
      obtain ⟨n, uscf, rfl, hn, hsame, hport, hblock⟩ := upstream_add_loop_some hloop
      rw [Nat.zero_add] at h
      cases h
      exact .inl ⟨uscf, hn, hsame, hport, hblock, rfl⟩
    · rename_i hloop
      cases h
      exact .inr ⟨upstream_add_loop_none hloop, rfl, rfl⟩

theorem keys_modify (upstreams : List UpstreamSrvConf) (i : Nat) {f : UpstreamSrvConf → UpstreamSrvConf}
    (hf : ∀ uscf, (f uscf).key = uscf.key) : keys (upstreams.modify i f) = keys upstreams := by
  apply List.ext_getElem?
  intro j
  rw [keys, keys, List.getElem?_map, List.getElem?_modify, List.getElem?_map]
  cases upstreams[j]? with
  | none => rfl
  | some uscf =>
    split_ifs
    · exact congrArg some (hf uscf)
    · rfl

/-- The upstreams that are there keep their places and their names, what is added is new, and the
upstream that is returned has the host and the port that were asked for. -/
theorem upstream_add_keys (h : upstream_add core text flags file_name line upstreams = .ok (i, upstreams'))
    (hdistinct : Distinct upstreams) : keys upstreams <+: keys upstreams' ∧ Distinct upstreams' ∧
      ∃ u key, Requests core text flags u ∧ (keys upstreams')[i]? = some key ∧ same_host key.1 u.host ∧
        key.2 = u.port := by
  obtain ⟨u, hu, ⟨uscf, hi, hsame, hport, -, hlist⟩ | ⟨hnew, rfl, rfl⟩⟩ := upstream_add_cases h
  · have hkeys : keys upstreams' = keys upstreams := by
      rw [hlist]
      split_ifs
      · exact keys_modify upstreams i fun _ => rfl
      · rfl
    rw [Distinct, hkeys]
    refine ⟨List.prefix_rfl, hdistinct, u, uscf.key, hu, ?_, hsame, hport⟩
    rw [keys, List.getElem?_map, hi]
    rfl
  · have hkeys : keys (upstreams ++ [u.upstream flags file_name line]) =
        keys upstreams ++ [(u.host, u.port)] := List.map_append
    rw [Distinct, hkeys]
    refine ⟨List.prefix_append _ _, ?_, u, (u.host, u.port), hu, ?_, same_host_refl _, rfl⟩
    · rw [List.pairwise_append]
      refine ⟨hdistinct, List.pairwise_singleton _ _, ?_⟩
      intro key hkey key' hkey' hsame
      obtain ⟨uscf, hmem, rfl⟩ := List.mem_map.mp hkey
      obtain rfl := List.mem_singleton.mp hkey'
      exact hnew uscf hmem hsame.1 hsame.2
    · rw [List.getElem?_append_right (by simp [keys])]
      simp [keys]

end

end ngx_nsoc_upstream
