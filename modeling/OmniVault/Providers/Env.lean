import OmniVault.Go.Environ
import OmniVault.Vault.Errors
import OmniVault.Resolver

/-!
`providers/env`: secrets held in the process environment.

`Get(path)` reads the variable `Prefix + path`. `Set` and `Delete` are
allowed only with `AllowWrite`: `Set` sets the variable to
`secret.String()` through `os.Setenv`, whose error it returns as it is, and
`Delete` unsets it. `List` reads `os.Environ()` and returns the names under
`Prefix + prefix`, with `Prefix` cut off.

Every provider of a process reads and writes the one environment, so a run
is any sequence of calls of any env providers, each with its own
configuration, from the environment the process was started with. Against
it stand the variables: the first entry of each key at the start, then
each `Set` and `Delete` that took effect. Every `Get` of every run answers
as they do, and when the process was started with a clean environment,
`List` names each variable under its prefix exactly once.
-/

namespace OmniVault.Providers.Env

open Vault Syscall

/-- `env.Config`. -/
structure Config where
  /-- `Prefix`. -/
  namePrefix : Bytes := []
  allowWrite : Bool := false
  deriving DecidableEq

/-- `p.Name()`. -/
def name : Bytes := .ofString "env"

section Methods

variable (cfg : Config)

/-- `p.Get(ctx, path)`. -/
def get (path : Bytes) (t : EnvTable) : Except ProviderError Secret :=
  match getenv (cfg.namePrefix ++ path) t with
  | none => .error (.vault (newVaultError (.ofString "Get") path name (.sentinel .secretNotFound)))
  | some value => .ok { value := value, metadata := { provider := name, path := path } }

/-- What `os.Setenv` returns on `EINVAL`: a `*SyscallError` of `setenv`. -/
def setenvError : OsError := ⟨.ofString "setenv: invalid argument", false⟩

/-- `p.Set(ctx, path, secret)`: the environment it leaves. `secret.String()`
on a nil `secret` panics. -/
def set (path : Bytes) (secret : Option Secret) (t : EnvTable) : Except ProviderFault EnvTable :=
  if !cfg.allowWrite then
    .error (.error (.vault (newVaultError (.ofString "Set") path name (.sentinel .readOnly))))
  else
    match secret with
    | none => .error (.panic nilDereferenceText)
    | some s =>
      match setenv (cfg.namePrefix ++ path) s.string t with
      | some t' => .ok t'
      | none => .error (.error (.os setenvError))

/-- `p.Delete(ctx, path)`. -/
def delete (path : Bytes) (t : EnvTable) : Except ProviderError EnvTable :=
  if !cfg.allowWrite then .error (.vault (newVaultError (.ofString "Delete") path name (.sentinel .readOnly)))
  else .ok (unsetenv (cfg.namePrefix ++ path) t)

/-- `p.Exists(ctx, path)`, which never fails. -/
def «exists» (path : Bytes) (t : EnvTable) : Bool := (getenv (cfg.namePrefix ++ path) t).isSome

/-- `p.List(ctx, prefix)`: `strings.SplitN(env, "=", 2)[0]` is the text
before the first '='. -/
def list (pre : Bytes) (t : EnvTable) : List Bytes :=
  (environ t).filterMap fun e =>
    let n := entryKey e
    if Bytes.hasPrefix n (cfg.namePrefix ++ pre) then some (Bytes.trimPrefix n cfg.namePrefix) else none

end Methods

/-! ## Runs -/

/-- A call of an env provider that can change the environment. -/
inductive EnvCall where
  | set (cfg : Config) (path : Bytes) (secret : Option Secret)
  | delete (cfg : Config) (path : Bytes)

/-- One call: the environment it leaves. A call that fails or panics leaves
it as it was. -/
def EnvCall.step : EnvCall → EnvTable → EnvTable
  | .set cfg path secret, t =>
    match Env.set cfg path secret t with
    | .ok t' => t'
    | .error _ => t
  | .delete cfg path, t =>
    match Env.delete cfg path t with
    | .ok t' => t'
    | .error _ => t

/-- The calls one after the other. -/
def runCalls (calls : List EnvCall) (t : EnvTable) : EnvTable := calls.foldl (fun t c => c.step t) t

/-- What a call does to the variables: a `Set` with writes allowed, of a
secret, to a name and a value `Setenv` accepts, sets the variable; a
`Delete` with writes allowed unsets it. -/
def EnvCall.apply : EnvCall → (Bytes → Option Bytes) → Bytes → Option Bytes
  | .set cfg path (some s), vars =>
    if cfg.allowWrite ∧ Setenvable (cfg.namePrefix ++ path) s.string then
      Function.update vars (cfg.namePrefix ++ path) (some s.string)
    else vars
  | .set _ _ none, vars => vars
  | .delete cfg path, vars => if cfg.allowWrite then Function.update vars (cfg.namePrefix ++ path) none else vars

/-- The variables of the environment a process is started with. -/
def startVars (envs : List Bytes) (k : Bytes) : Option Bytes := if k = [] then none else firstMention k envs

/-- The variables after the calls. -/
def runVars (calls : List EnvCall) (envs : List Bytes) : Bytes → Option Bytes :=
  calls.foldl (fun vars c => c.apply vars) (startVars envs)

theorem EnvCall.step_set (cfg : Config) (path : Bytes) (secret : Option Secret) (t : EnvTable) :
    (EnvCall.set cfg path secret).step t =
      match secret with
      | some s => if cfg.allowWrite then (setenv (cfg.namePrefix ++ path) s.string t).getD t else t
      | none => t := by
  obtain ⟨pre, aw⟩ := cfg
  cases secret with
  | none => cases aw <;> rfl
  | some s =>
    cases aw
    · rfl
    · show (match (match setenv (pre ++ path) s.string t with
        | some t' => (.ok t' : Except ProviderFault EnvTable)
        | none => .error (.error (.os setenvError))) with
        | .ok t' => t'
        | .error _ => t) = (setenv (pre ++ path) s.string t).getD t
      cases setenv (pre ++ path) s.string t <;> rfl

theorem EnvCall.step_delete (cfg : Config) (path : Bytes) (t : EnvTable) :
    (EnvCall.delete cfg path).step t = if cfg.allowWrite then unsetenv (cfg.namePrefix ++ path) t else t := by
  obtain ⟨pre, aw⟩ := cfg
  cases aw <;> rfl

theorem EnvCall.step_wellFormed {t : EnvTable} (h : t.WellFormed) : ∀ c : EnvCall, (c.step t).WellFormed
  | .set cfg path secret => by
    rw [EnvCall.step_set]
    split
    · split
      · cases hs : setenv (cfg.namePrefix ++ path) _ t
        · exact h
        · exact setenv_wellFormed h hs
      · exact h
    · exact h
  | .delete cfg path => by
    rw [EnvCall.step_delete]
    split
    · exact unsetenv_wellFormed h
    · exact h

theorem EnvCall.step_clean {t : EnvTable} (hc : Clean t.envs) : ∀ c : EnvCall, Clean (c.step t).envs
  | .set cfg path secret => by
    rw [EnvCall.step_set]
    split
    · split
      · cases hs : setenv (cfg.namePrefix ++ path) _ t
        · exact hc
        · exact clean_setenv hc hs
      · exact hc
    · exact hc
  | .delete cfg path => by
    rw [EnvCall.step_delete]
    split
    · exact clean_unsetenv hc
    · exact hc

/-- One call, read as its effect on the variables. -/
theorem EnvCall.getenv_step {t : EnvTable} (h : t.WellFormed) (c : EnvCall) (k : Bytes) :
    getenv k (c.step t) = c.apply (fun k => getenv k t) k := by
  cases c with
  | set cfg path secret =>
    rw [EnvCall.step_set]
    cases secret with
    | none => rfl
    | some s =>
      simp only [EnvCall.apply]
      by_cases hw : cfg.allowWrite = true
      · simp only [hw, if_true, true_and]
        by_cases hv : Setenvable (cfg.namePrefix ++ path) s.string
        · obtain ⟨t', ht'⟩ := Option.ne_none_iff_exists'.mp (mt setenv_eq_none_iff.mp (not_not.mpr hv))
          rw [ht', Option.getD_some, getenv_setenv h ht', if_pos hv, Function.update_apply]
        · rw [setenv_eq_none_iff.mpr hv, Option.getD_none, if_neg hv]
      · simp [hw]
  | delete cfg path =>
    rw [EnvCall.step_delete]
    simp only [EnvCall.apply]
    split
    · rw [getenv_unsetenv h, Function.update_apply]
    · rfl

/-- A run keeps the table well formed, and reads as the calls' effect on
the variables it started with. -/
theorem runCalls_spec : ∀ (calls : List EnvCall) (t : EnvTable), t.WellFormed →
    (runCalls calls t).WellFormed ∧
      ∀ k, getenv k (runCalls calls t) = calls.foldl (fun vars c => c.apply vars) (fun k => getenv k t) k
  | [], _, h => ⟨h, fun _ => rfl⟩
  | c :: calls, t, h => by
    have hstep : (fun k => getenv k (c.step t)) = c.apply (fun k => getenv k t) :=
      funext (EnvCall.getenv_step h c)
    have := runCalls_spec calls (c.step t) (EnvCall.step_wellFormed h c)
    rw [hstep] at this
    exact this

theorem runCalls_clean : ∀ (calls : List EnvCall) {t : EnvTable}, Clean t.envs → Clean (runCalls calls t).envs
  | [], _, hc => hc
  | c :: calls, _, hc => runCalls_clean calls (EnvCall.step_clean hc c)

/-- Every `Get` of every run of env providers, from the environment the
process was started with, answers as the variables do: at the start the
first entry of each key, then each `Set` and `Delete` that took effect. -/
theorem get_runCalls (envs : List Bytes) (calls : List EnvCall) (cfg : Config) (path : Bytes) :
    get cfg path (runCalls calls (copyenv envs)) =
      match runVars calls envs (cfg.namePrefix ++ path) with
      | none => .error (.vault (newVaultError (.ofString "Get") path name (.sentinel .secretNotFound)))
      | some value => .ok { value := value, metadata := { provider := name, path := path } } := by
  have hstart : (fun k => getenv k (copyenv envs)) = startVars envs := funext (getenv_copyenv envs)
  have hrun := (runCalls_spec calls _ (copyenv_wellFormed envs)).2 (cfg.namePrefix ++ path)
  rw [hstart] at hrun
  rw [get, hrun]
  rfl

/-- The names under a prefix, with another prefix cut off. -/
theorem trimPrefix_eq_iff {n c pre x : Bytes} :
    (Bytes.hasPrefix n (c ++ pre) = true ∧ Bytes.trimPrefix n c = x) ↔ (n = c ++ x ∧ pre <+: x) := by
  constructor
  · rintro ⟨hp, rfl⟩
    rw [Bytes.hasPrefix_iff] at hp
    have hc : c <+: n := (List.prefix_append c pre).trans hp
    have hn : n = c ++ n.drop c.length := (List.prefix_iff_eq_append.mp hc).symm
    refine ⟨by simp [Bytes.trimPrefix, hc, ← hn], ?_⟩
    rw [hn] at hp
    simpa [Bytes.trimPrefix, hc] using (List.prefix_append_right_inj c).mp hp
  · rintro ⟨rfl, hx⟩
    refine ⟨Bytes.hasPrefix_iff.mpr ((List.prefix_append_right_inj c).mpr hx), ?_⟩
    simp [Bytes.trimPrefix]

/-- When the process was started with a clean environment, after any run
of env providers `List(prefix)` names each variable under
`Prefix + prefix` once, with `Prefix` cut off: exactly the names `Exists`
finds. -/
theorem list_runCalls {envs : List Bytes} (hc : Clean envs) (calls : List EnvCall) (cfg : Config)
    (pre : Bytes) :
    (list cfg pre (runCalls calls (copyenv envs))).Nodup ∧
      ∀ x, x ∈ list cfg pre (runCalls calls (copyenv envs)) ↔
        pre <+: x ∧ «exists» cfg x (runCalls calls (copyenv envs)) = true := by
  have hwf := (runCalls_spec calls _ (copyenv_wellFormed envs)).1
  have hcl := runCalls_clean calls (clean_copyenv hc)
  have hlist : list cfg pre (runCalls calls (copyenv envs)) =
      ((environ (runCalls calls (copyenv envs))).map entryKey).filterMap fun n =>
        if Bytes.hasPrefix n (cfg.namePrefix ++ pre) then some (Bytes.trimPrefix n cfg.namePrefix) else none := by
    rw [list, List.filterMap_map]
    rfl
  rw [hlist]
  refine ⟨(hwf.names_nodup hcl).filterMap fun a a' b ha ha' => ?_, fun x => ?_⟩
  · simp only [Option.mem_def, Option.ite_none_right_eq_some, Option.some.injEq] at ha ha'
    exact (trimPrefix_eq_iff.mp ha).1.trans (trimPrefix_eq_iff.mp ha').1.symm
  · simp only [List.mem_filterMap, Option.ite_none_right_eq_some, Option.some.injEq, trimPrefix_eq_iff]
    constructor
    · rintro ⟨n, hn, rfl, hx⟩
      exact ⟨hx, (hwf.mem_names hcl).mp hn⟩
    · rintro ⟨hx, he⟩
      exact ⟨_, (hwf.mem_names hcl).mpr he, rfl, hx⟩

/-- A process started with `HOME` and `APP_TOKEN`, after a provider with
prefix "APP_" has set `KEY`. -/
theorem list_runCalls_sample :
    let envs := [Bytes.ofString "HOME=/root", .ofString "APP_TOKEN=t0"]
    let cfg : Config := { namePrefix := .ofString "APP_", allowWrite := true }
    let calls := [EnvCall.set cfg (.ofString "KEY") (some { value := .ofString "v" })]
    Clean envs ∧ list cfg [] (runCalls calls (copyenv envs)) = [.ofString "TOKEN", .ofString "KEY"] ∧
      (list cfg [] (runCalls calls (copyenv envs))).Nodup ∧
      ∀ x, x ∈ list cfg [] (runCalls calls (copyenv envs)) ↔
        [] <+: x ∧ «exists» cfg x (runCalls calls (copyenv envs)) = true :=
  ⟨by decide, by decide, list_runCalls (by decide) _ _ _⟩

/-- An entry with no '=' is listed, yet `Exists` does not find it. -/
example : list {} [] (copyenv [.ofString "FOO"]) = [.ofString "FOO"] ∧
    «exists» {} (.ofString "FOO") (copyenv [.ofString "FOO"]) = false := by decide

end OmniVault.Providers.Env
