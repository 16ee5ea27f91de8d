import OmniVault.Vault.Errors
import OmniVault.Resolver

/-!
`providers/memory`: secrets in a map of the process.

`Set` stores its secret with `CreatedAt` kept when the caller gave one and
read from the clock otherwise, `ModifiedAt` read from the clock, and the
provider's name and the path. `Close` marks the provider closed and drops
the map; every method but `Clear` and `Count` then returns `ErrClosed`.
`Clear` makes a new empty map and leaves the flag alone, so it does not
reopen the provider.

The mutex is not modelled: every method holds it from start to end, so a
call is one step. `copySecret` copies the maps and slices of a secret but
shares its time pointers and its `Extra` map with the caller; values here
have no aliasing, so the copy is the secret itself and a caller's later
write through a shared pointer is not modelled. A clock reading is part of the
call that reads it, and `List` ranges over the map in an order the model
takes as a parameter.
-/

namespace OmniVault.Providers.Memory

open Vault

/-- `memory.Provider`. After `Close` the map is nil, which reads as empty. -/
structure Provider where
  secrets : GoMap Secret := GoMap.empty
  closed : Bool := false

/-- `p.Name()`. -/
def name : Bytes := .ofString "memory"

/-- `New()`. -/
def new : Provider := {}

/-- The secret `NewWithSecrets` stores for `k`, created at `t`. -/
def seeded (k v : Bytes) (t : Time) : Secret :=
  { value := v, metadata := { provider := name, path := k, createdAt := some t } }

/-- The loop of `NewWithSecrets` from its `i`-th entry on, the `i`-th read
of the clock giving `now i`. -/
def seedFrom (now : Nat → Time) : Nat → List (Bytes × Bytes) → GoMap Secret → GoMap Secret
  | _, [], m => m
  | i, (k, v) :: rest, m => seedFrom now (i + 1) rest (m.insert k (seeded k v (now i)))

/-- `NewWithSecrets(secrets)`, ranging over the map in the order `order`
gives its entries. -/
def newWithSecrets (order : List (Bytes × Bytes) → List (Bytes × Bytes)) (now : Nat → Time)
    (secrets : GoMap Bytes) : Provider :=
  { secrets := seedFrom now 0 (order secrets.entries) GoMap.empty }

/-- `vault.NewVaultError(op, path, p.Name(), err)`. -/
def vaultError (op path : Bytes) (e : Sentinel) : ProviderError := .vault (newVaultError op path name (.sentinel e))

namespace Provider

variable (p : Provider)

/-- `p.Get(ctx, path)`. -/
def get (path : Bytes) : Except ProviderError Secret :=
  if p.closed then .error (vaultError (.ofString "Get") path .closed)
  else
    match p.secrets.lookup path with
    | none => .error (vaultError (.ofString "Get") path .secretNotFound)
    | some s => .ok s

/-- What `Set` stores: `created` and `modified` are what the two
`vault.Now()` calls read; the first is read only when the secret has no
`CreatedAt`. -/
def stored (path : Bytes) (s : Secret) (created modified : Time) : Secret :=
  { s with metadata := { s.metadata with
      createdAt := some (s.metadata.createdAt.getD created)
      modifiedAt := some modified
      provider := name
      path := path } }

/-- `p.Set(ctx, path, secret)`. `copySecret(nil)` is nil, and reading its
`Metadata` panics. -/
def set (path : Bytes) (secret : Option Secret) (created modified : Time) : Except ProviderFault Provider :=
  if p.closed then .error (.error (vaultError (.ofString "Set") path .closed))
  else
    match secret with
    | none => .error (.panic nilDereferenceText)
    | some s => .ok { p with secrets := p.secrets.insert path (stored path s created modified) }

/-- `p.Delete(ctx, path)`. -/
def delete (path : Bytes) : Except ProviderError Provider :=
  if p.closed then .error (vaultError (.ofString "Delete") path .closed)
  else .ok { p with secrets := p.secrets.erase path }

/-- `p.Exists(ctx, path)`. -/
def «exists» (path : Bytes) : Except ProviderError Bool :=
  if p.closed then .error (vaultError (.ofString "Exists") path .closed)
  else .ok (p.secrets.lookup path).isSome

/-- `p.List(ctx, prefix)`, ranging over the paths in the order `order` gives. -/
def list (order : List Bytes → List Bytes) (pre : Bytes) : Except ProviderError (List Bytes) :=
  if p.closed then .error (vaultError (.ofString "List") pre .closed)
  else .ok ((order p.secrets.keys).filter (Bytes.hasPrefix · pre))

/-- `p.Close()`. -/
def close (_ : Provider) : Provider := { secrets := GoMap.empty, closed := true }

/-- `p.Clear()`. -/
def clear : Provider := { p with secrets := GoMap.empty }

/-- `p.Count()`. -/
def count : Nat := p.secrets.size

end Provider

/-! ## Runs -/

/-- A call that can change the provider, with what the clock reads in it. -/
inductive MemoryCall where
  | set (path : Bytes) (secret : Option Secret) (created modified : Time)
  | delete (path : Bytes)
  | close
  | clear

/-- One call: the provider it leaves. A call that fails or panics leaves it
as it was. -/
def MemoryCall.step : MemoryCall → Provider → Provider
  | .set path secret created modified, p =>
    match p.set path secret created modified with
    | .ok p' => p'
    | .error _ => p
  | .delete path, p =>
    match p.delete path with
    | .ok p' => p'
    | .error _ => p
  | .close, p => p.close
  | .clear, p => p.clear

/-- The calls one after the other. -/
def runCalls (calls : List MemoryCall) (p : Provider) : Provider := calls.foldl (fun p c => c.step p) p

/-- What a call does to the secrets, as a map from paths. -/
def MemoryCall.apply : MemoryCall → (Bytes → Option Secret) → Bytes → Option Secret
  | .set path (some s) created modified, m => Function.update m path (some (Provider.stored path s created modified))
  | .set _ none _ _, m => m
  | .delete path, m => Function.update m path none
  | .close, _ => fun _ => none
  | .clear, _ => fun _ => none

/-- The map after the calls one after the other. -/
def runMap (calls : List MemoryCall) (m : Bytes → Option Secret) : Bytes → Option Secret :=
  calls.foldl (fun m c => c.apply m) m

/-! ## An open provider is a map -/

/-- The secrets as a map from paths. -/
def Provider.view (p : Provider) : Bytes → Option Secret := fun k => p.secrets.lookup k

theorem MemoryCall.step_view {p : Provider} (hp : p.closed = false) :
    ∀ c : MemoryCall, c ≠ .close → (c.step p).closed = false ∧ (c.step p).view = c.apply p.view
  | .set path (some s) created modified, _ => by
    refine ⟨by simp [MemoryCall.step, Provider.set, hp], funext fun k => ?_⟩
    simp only [MemoryCall.step, Provider.set, hp, Bool.false_eq_true, if_false, MemoryCall.apply, Provider.view,
      GoMap.lookup_insert, Function.update_apply]
  | .set path none created modified, _ => by simp [MemoryCall.step, Provider.set, hp, MemoryCall.apply]
  | .delete path, _ => by
    refine ⟨by simp [MemoryCall.step, Provider.delete, hp], funext fun k => ?_⟩
    simp only [MemoryCall.step, Provider.delete, hp, Bool.false_eq_true, if_false, MemoryCall.apply, Provider.view,
      GoMap.lookup_erase, Function.update_apply]
  | .clear, _ => ⟨hp, rfl⟩

theorem runCalls_view : ∀ (calls : List MemoryCall) {p : Provider}, p.closed = false → MemoryCall.close ∉ calls →
    (runCalls calls p).closed = false ∧ (runCalls calls p).view = runMap calls p.view
  | [], _, hp, _ => ⟨hp, rfl⟩
  | c :: calls, _, hp, hc => by
    obtain ⟨hp', hv⟩ := MemoryCall.step_view hp c fun h => hc (h ▸ List.mem_cons_self _ _)
    have := runCalls_view calls hp' fun h => hc (List.mem_cons_of_mem _ h)
    rw [hv] at this
    exact this

/-- While it is open, the memory provider is a map from paths to secrets.
Over any run of `Set`, `Delete` and `Clear` calls (a call that panics
changing nothing), `Get(path)` returns what the last `Set` of the path
stored since the last `Delete` of it or `Clear`, or `ErrSecretNotFound`;
`Exists` agrees; and `List(prefix)`, in any order of the range, names each
stored path with the prefix once. -/
theorem open_runs_refine_map (p : Provider) (hp : p.closed = false) (calls : List MemoryCall)
    (hc : MemoryCall.close ∉ calls) (path : Bytes) :
    let q := runCalls calls p
    let M := runMap calls p.view
    q.get path = (match M path with
      | some s => .ok s
      | none => .error (vaultError (.ofString "Get") path .secretNotFound)) ∧
    q.exists path = .ok (M path).isSome ∧
    ∀ order pre, (∀ l, (order l).Perm l) → ∃ l, q.list order pre = .ok l ∧ l.Nodup ∧ ∀ x, x ∈ l ↔ pre <+: x ∧ (M x).isSome := by
  obtain ⟨hq, hv⟩ := runCalls_view calls hp hc
  have hM : ∀ k, (runCalls calls p).secrets.lookup k = runMap calls p.view k := fun k => congrFun hv k
  intro q M
  refine ⟨?_, by simp [q, M, Provider.exists, hq, hM], fun order pre horder =>
    ⟨(order q.secrets.keys).filter (Bytes.hasPrefix · pre), by simp [q, Provider.list, hq], ?_, fun x => ?_⟩⟩
  · simp only [q, M, Provider.get, hq, Bool.false_eq_true, if_false, hM]
    cases runMap calls p.view path <;> rfl
  · exact ((horder _).nodup_iff.mpr (GoMap.keys_nodup _)).filter _
  · rw [List.mem_filter, (horder _).mem_iff, GoMap.mem_keys, hM, Bytes.hasPrefix_iff, and_comm]

/-- Two sets, a delete and a clear, then one more set. -/
theorem open_runs_refine_map_sample :
    let calls := [MemoryCall.set (.ofString "a") (some { value := .ofString "1" }) Time.zero Time.zero,
      .set (.ofString "b") (some {}) Time.zero Time.zero, .delete (.ofString "a"), .clear,
      .set (.ofString "c") (some {}) Time.zero Time.zero]
    new.closed = false ∧ MemoryCall.close ∉ calls ∧
      let q := runCalls calls new
      let M := runMap calls new.view
      q.get (.ofString "c") = (match M (.ofString "c") with
        | some s => .ok s
        | none => .error (vaultError (.ofString "Get") (.ofString "c") .secretNotFound)) ∧
      q.exists (.ofString "c") = .ok (M (.ofString "c")).isSome ∧
      ∀ order pre, (∀ l, (order l).Perm l) → ∃ l, q.list order pre = .ok l ∧ l.Nodup ∧
        ∀ x, x ∈ l ↔ pre <+: x ∧ (M x).isSome :=
  have hc : MemoryCall.close ∉ [MemoryCall.set (.ofString "a") (some { value := .ofString "1" }) Time.zero Time.zero,
      .set (.ofString "b") (some {}) Time.zero Time.zero, .delete (.ofString "a"), .clear,
      .set (.ofString "c") (some {}) Time.zero Time.zero] := by simp
  ⟨rfl, hc, open_runs_refine_map new rfl _ hc _⟩

/-! ## `NewWithSecrets` -/

section Seed

variable (now : Nat → Time)

theorem seedFrom_lookup_of_not_mem : ∀ (i : Nat) (l : List (Bytes × Bytes)) (m₀ : GoMap Secret) {k : Bytes},
    k ∉ l.map Prod.fst → (seedFrom now i l m₀).lookup k = m₀.lookup k
  | _, [], _, _, _ => rfl
  | i, (k', v) :: rest, m₀, k, hk => by
    simp only [List.map_cons, List.mem_cons, not_or] at hk
    rw [seedFrom, seedFrom_lookup_of_not_mem i.succ rest _ hk.2, GoMap.lookup_insert_ne hk.1]

theorem seedFrom_lookup : ∀ (i : Nat) (l : List (Bytes × Bytes)) (m₀ : GoMap Secret) {j : Nat} {k v : Bytes},
    (l.map Prod.fst).Nodup → l[j]? = some (k, v) → (seedFrom now i l m₀).lookup k = some (seeded k v (now (i + j)))
  | _, [], _, _, _, _, _, h => nomatch h
  | i, (k', v') :: rest, m₀, j, k, v, hnd, hj => by
    simp only [List.map_cons, List.nodup_cons] at hnd
    cases j with
    | zero =>
      simp only [List.getElem?_cons_zero, Option.some.injEq, Prod.mk.injEq] at hj
      obtain ⟨rfl, rfl⟩ := hj
      rw [seedFrom, seedFrom_lookup_of_not_mem now _ rest _ hnd.1, GoMap.lookup_insert_self, Nat.add_zero]
    | succ j =>
      rw [List.getElem?_cons_succ] at hj
      rw [seedFrom, seedFrom_lookup (i + 1) rest _ hnd.2 hj, Nat.add_right_comm, Nat.add_assoc]

end Seed

/-- `NewWithSecrets` holds each entry of its map, in whatever order the
range visits them: `Get` of a path of the map returns its value under the
provider's name and the path, created at one of the clock's readings, and
`Get` of any other path finds nothing. -/
theorem newWithSecrets_get {order : List (Bytes × Bytes) → List (Bytes × Bytes)} {m : GoMap Bytes}
    (horder : (order m.entries).Perm m.entries) (now : Nat → Time) (k : Bytes) :
    (m.lookup k = none → (newWithSecrets order now m).get k = .error (vaultError (.ofString "Get") k .secretNotFound)) ∧
      ∀ v, m.lookup k = some v → ∃ i, (newWithSecrets order now m).get k = .ok (seeded k v (now i)) := by
  have hnd : ((order m.entries).map Prod.fst).Nodup := (horder.map Prod.fst).nodup_iff.mpr (GoMap.keys_nodup m)
  constructor
  · intro hk
    have hmem : k ∉ (order m.entries).map Prod.fst := fun hk' => by
      have := GoMap.mem_keys.mp ((horder.map Prod.fst).subset hk')
      rw [hk] at this
      cases this
    simp [newWithSecrets, Provider.get, seedFrom_lookup_of_not_mem now 0 _ _ hmem]
  · intro v hv
    obtain ⟨j, hj⟩ := List.mem_iff_getElem?.mp (horder.mem_iff.mpr (GoMap.mem_of_find hv))
    exact ⟨0 + j, by simp [newWithSecrets, Provider.get, seedFrom_lookup now 0 _ _ hnd hj]⟩

/-- A map of one entry, visited in its own order. -/
theorem newWithSecrets_get_sample :
    let m := GoMap.empty.insert (.ofString "API_KEY") (.ofString "k1")
    (id m.entries).Perm m.entries ∧
      (newWithSecrets id (fun _ => Time.zero) m).get (.ofString "API_KEY") =
        .ok (seeded (.ofString "API_KEY") (.ofString "k1") Time.zero) := by
  intro m
  refine ⟨List.Perm.refl _, ?_⟩
  obtain ⟨_, h⟩ := (@newWithSecrets_get id m (List.Perm.refl _) (fun _ => Time.zero) (.ofString "API_KEY")).2 (.ofString "k1") (by decide)
  exact h

/-! ## `Close` is final -/

/-- Closed, with the map dropped. -/
def Provider.Shut (p : Provider) : Prop := p.closed = true ∧ p.secrets = GoMap.empty

theorem MemoryCall.step_shut {p : Provider} (h : p.Shut) : ∀ c : MemoryCall, (c.step p).Shut
  | .set path secret created modified => by simp [MemoryCall.step, Provider.set, h.1, h]
  | .delete path => by simp [MemoryCall.step, Provider.delete, h.1, h]
  | .close => ⟨rfl, rfl⟩
  | .clear => ⟨h.1, rfl⟩

theorem runCalls_shut : ∀ (calls : List MemoryCall) {p : Provider}, p.Shut → (runCalls calls p).Shut
  | [], _, h => h
  | c :: calls, _, h => runCalls_shut calls (MemoryCall.step_shut h c)

/-- `Close` is final: whatever calls follow it, `Clear` among them, the
provider counts no secret, every method returns `ErrClosed` naming its
operation and its path, and `Set` and `Delete` change nothing. -/
theorem close_final (p : Provider) (before after : List MemoryCall) :
    let q := runCalls (before ++ .close :: after) p
    q.count = 0 ∧ (∀ path, q.get path = .error (vaultError (.ofString "Get") path .closed)) ∧
      (∀ path secret created modified,
        q.set path secret created modified = .error (.error (vaultError (.ofString "Set") path .closed))) ∧
      (∀ path, q.delete path = .error (vaultError (.ofString "Delete") path .closed)) ∧
      (∀ path, q.exists path = .error (vaultError (.ofString "Exists") path .closed)) ∧
      ∀ order pre, q.list order pre = .error (vaultError (.ofString "List") pre .closed) := by
  have h : (runCalls (before ++ .close :: after) p).Shut := by
    rw [runCalls, List.foldl_append, List.foldl_cons]
    exact runCalls_shut after ⟨rfl, rfl⟩
  simp [Provider.count, Provider.get, Provider.set, Provider.delete, Provider.exists, Provider.list, h.1, h.2,
    GoMap.size, GoMap.empty]

end OmniVault.Providers.Memory
