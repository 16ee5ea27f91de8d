import OmniVault.Providers.Memory
import OmniVault.Providers.Env
import OmniVault.Providers.File

/-!
The resolver over the providers of this repository.

`Resolve` panics when a provider's `Get` answers a nil secret with a nil
error. None of the memory, env and file providers ever does: each returns a
secret or an error. So a resolver whose every scheme is one of them returns
a value or an error on every input, from `Resolve` up to `ResolveMap`,
whatever the state of the providers.
-/

namespace OmniVault.Providers

open Vault

/-- The memory provider as the resolver calls it: its `Get`. -/
def Memory.Provider.vault (p : Memory.Provider) : OmniVault.Provider :=
  ⟨fun path => ((p.get path).map some).mapError ProviderError.text⟩

/-- An env provider, over the process environment `t`, as the resolver
calls it. -/
def Env.Config.vault (cfg : Env.Config) (t : Syscall.EnvTable) : OmniVault.Provider :=
  ⟨fun path => ((Env.get cfg path t).map some).mapError ProviderError.text⟩

/-- A file provider, over the file system `fs`, as the resolver calls it. -/
def File.Provider.vault (p : File.Provider) (fs : Os.Fs) : OmniVault.Provider :=
  ⟨fun path => ((p.get fs path).map some).mapError ProviderError.text⟩

/-- A provider whose `Get` never answers a nil secret with a nil error. -/
def NeverNil (v : OmniVault.Provider) : Prop := ∀ path, v.get path ≠ .ok none

theorem Memory.Provider.vault_neverNil (p : Memory.Provider) : NeverNil p.vault := fun path h => by
  cases hg : p.get path <;> simp [Memory.Provider.vault, hg, Except.map, Except.mapError] at h

theorem Env.Config.vault_neverNil (cfg : Env.Config) (t : Syscall.EnvTable) : NeverNil (cfg.vault t) := fun path h => by
  cases hg : Env.get cfg path t <;> simp [Env.Config.vault, hg, Except.map, Except.mapError] at h

theorem File.Provider.vault_neverNil (p : File.Provider) (fs : Os.Fs) : NeverNil (p.vault fs) := fun path h => by
  cases hg : p.get fs path <;> simp [File.Provider.vault, hg, Except.map, Except.mapError] at h

/-- What `ResolveSecret` can return: an error of its own or of a provider, a
secret, or the nil secret of a provider that answered nil with a nil error. -/
theorem resolveSecret_cases (r : Resolver) (uri : Bytes) :
    (∃ e, r.resolveSecret uri = .error (.error e)) ∨ (∃ s, r.resolveSecret uri = .ok (some s)) ∨
      ∃ e ∈ r.providers.entries, e.2.get (SecretRef.path uri) = .ok none ∧ r.resolveSecret uri = .ok none := by
  by_cases hs : SecretRef.scheme uri = []
  · exact .inl ⟨_, by simp [Resolver.resolveSecret, hs]; rfl⟩
  cases hl : r.providers.lookup (SecretRef.scheme uri) with
  | none => exact .inl ⟨_, by simp [Resolver.resolveSecret, hs, hl]; rfl⟩
  | some v =>
    cases hg : v.get (SecretRef.path uri) with
    | error e => exact .inl ⟨_, by simp [Resolver.resolveSecret, hs, hl, hg]; rfl⟩
    | ok s =>
      cases s with
      | none => exact .inr (.inr ⟨_, GoMap.mem_of_find hl, hg, by simp [Resolver.resolveSecret, hs, hl, hg]; rfl⟩)
      | some s =>
        by_cases hf : SecretRef.fragment uri = [] <;>
          exact .inr (.inl ⟨_, by simp [Resolver.resolveSecret, hs, hl, hg, hf]; rfl⟩)

section NoPanic

variable {r : Resolver} (hr : ∀ e ∈ r.providers.entries, NeverNil e.2)
include hr

theorem resolveSecret_ne_ok_none (uri : Bytes) : r.resolveSecret uri ≠ .ok none := by
  rcases resolveSecret_cases r uri with ⟨e, h⟩ | ⟨s, h⟩ | ⟨e, he, hg, -⟩
  · rw [h]; nofun
  · rw [h]; nofun
  · exact absurd hg (hr e he _)

omit hr in
/-- `ResolveSecret` returns its errors and never panics. -/
theorem resolveSecret_ne_panic (uri msg : Bytes) : r.resolveSecret uri ≠ .error (.panic msg) := by
  rcases resolveSecret_cases r uri with ⟨e, h⟩ | ⟨s, h⟩ | ⟨e, -, -, h⟩ <;> rw [h] <;> nofun

theorem resolve_ne_panic (uri msg : Bytes) : r.resolve uri ≠ .error (.panic msg) := by
  intro h
  cases hs : r.resolveSecret uri with
  | error e =>
    simp only [Resolver.resolve, hs] at h
    cases h
    exact resolveSecret_ne_panic uri msg hs
  | ok s =>
    cases s with
    | none => exact resolveSecret_ne_ok_none hr uri hs
    | some s =>
      simp only [Resolver.resolve, hs] at h
      cases h

theorem resolveString_ne_panic (s msg : Bytes) : r.resolveString s ≠ .error (.panic msg) := by
  unfold Resolver.resolveString
  split
  · exact fun h => by cases h
  · exact resolve_ne_panic hr s msg

theorem resolveMap_foldlM_ne_panic (msg : Bytes) :
    ∀ (l : List (Bytes × Bytes)) (acc : GoMap Bytes),
      l.foldlM (fun acc kv =>
        match r.resolveString kv.2 with
        | .ok v => pure (acc.insert kv.1 v)
        | .error (.error e) => throw (.error (.failedToResolve kv.1 e))
        | .error (.panic msg) => throw (.panic msg)) acc ≠ (.error (.panic msg) : Except ResolveFault (GoMap Bytes))
  | [], _ => fun h => by cases h
  | kv :: l, acc => by
    rw [List.foldlM_cons]
    cases hs : r.resolveString kv.2 with
    | ok v => exact resolveMap_foldlM_ne_panic msg l _
    | error e =>
      cases e with
      | error e => exact fun h => by cases h
      | panic m => exact absurd hs (resolveString_ne_panic hr kv.2 m)

end NoPanic

/-- A resolver whose every scheme is a memory, env or file provider, in any
state, never panics: `ResolveString` and `ResolveMap` return a value
or an error on every input, whatever order the range over the map takes. -/
theorem resolve_own_providers_no_panic {r : Resolver}
    (hr : ∀ e ∈ r.providers.entries, (∃ p : Memory.Provider, e.2 = p.vault) ∨ (∃ cfg t, e.2 = Env.Config.vault cfg t) ∨
      ∃ (p : File.Provider) (fs : Os.Fs), e.2 = p.vault fs) :
    (∀ s msg, r.resolveString s ≠ .error (.panic msg)) ∧
      ∀ order m msg, r.resolveMap order m ≠ .error (.panic msg) := by
  have hnn : ∀ e ∈ r.providers.entries, NeverNil e.2 := fun e he => by
    rcases hr e he with ⟨p, hp⟩ | ⟨cfg, t, ht⟩ | ⟨p, fs, hp⟩
    · exact hp ▸ p.vault_neverNil
    · exact ht ▸ cfg.vault_neverNil t
    · exact hp ▸ p.vault_neverNil fs
  exact ⟨resolveString_ne_panic hnn, fun order m msg => resolveMap_foldlM_ne_panic hnn msg _ _⟩

/-- A resolver with a new memory provider under "mem". -/
def memResolver : Resolver := ⟨GoMap.empty.insert (.ofString "mem") Memory.new.vault⟩

theorem resolve_own_providers_no_panic_mem :
    (∀ e ∈ memResolver.providers.entries,
      (∃ p : Memory.Provider, e.2 = p.vault) ∨ (∃ cfg t, e.2 = Env.Config.vault cfg t) ∨
      ∃ (p : File.Provider) (fs : Os.Fs), e.2 = p.vault fs) ∧
    (∀ s msg, memResolver.resolveString s ≠ .error (.panic msg)) ∧
      ∀ order m msg, memResolver.resolveMap order m ≠ .error (.panic msg) :=
  have hr : ∀ e ∈ memResolver.providers.entries,
      (∃ p : Memory.Provider, e.2 = p.vault) ∨ (∃ cfg t, e.2 = Env.Config.vault cfg t) ∨
        ∃ (p : File.Provider) (fs : Os.Fs), e.2 = p.vault fs := fun e he => by
    simp only [memResolver, GoMap.insert, GoMap.empty, GoMap.insertEntry, List.mem_singleton] at he
    subst he
    exact .inl ⟨_, rfl⟩
  ⟨hr, resolve_own_providers_no_panic hr⟩

end OmniVault.Providers
