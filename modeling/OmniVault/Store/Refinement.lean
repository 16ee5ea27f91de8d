import OmniVault.Store.Calls

/-!
`EncryptedStore` against the finite map it stands for.

A run is a list of calls on one store, from no files and a fresh store; the
reference map takes every `Set` and `Delete` that returned. `Refines` ties a
world to the map: either no vault yet and nothing stored, or a vault of key
`K` whose metadata file holds the verification blob sealed under `K`, whose
data file holds under `K` a ciphertext of every secret of the map at its
path, and whose store is locked or holds a session of key `K` over the same
data. Each call keeps it when every write of the operating system succeeds
and the clock reads times `RFC3339` can write; from it, an unlocked store
answers every read as the map does, and a locked one refuses every call with
nothing changed.

`Set` is given paths and secrets whose texts are valid UTF-8 and whose times
`RFC3339` can write: `json.Marshal` rewrites invalid UTF-8, so a secret comes
back with other bytes and two paths can become one when the data file is read
back, and `Get` fails on a time it cannot parse back. A zone offset that is
not a whole number of minutes is allowed: it comes back cut to minutes, which
moves the time but none of the fields compared.
-/

namespace OmniVault.Store

open Vault Json

/-! ## Runs -/

/-- A call a program makes on the store. -/
inductive StoreCall where
  | init (password : Bytes)
  | unlock (password : Bytes)
  | lock
  | get (path : Bytes)
  | set (path : Bytes) (secret : Secret)
  | delete (path : Bytes)
  | «exists» (path : Bytes)
  | list (pre : Bytes)
  | secretCount

section Run

variable (P : Primitives) (env : Env)

/-- The method a call runs, its answer dropped. -/
def StoreCall.run : StoreCall → StoreM Unit
  | .init password => EncryptedStore.init P env password
  | .unlock password => EncryptedStore.unlock P env password
  | .lock => EncryptedStore.lock env
  | .get path => do let _ ← EncryptedStore.get P path
  | .set path secret => EncryptedStore.set P env path secret
  | .delete path => EncryptedStore.delete env path
  | .exists path => do let _ ← EncryptedStore.exists path
  | .list pre => do let _ ← EncryptedStore.list pre
  | .secretCount => do let _ ← EncryptedStore.secretCount

/-- What a call that returned does to the reference map. -/
def StoreCall.apply : StoreCall → GoMap Secret → GoMap Secret
  | .set path secret, M => M.insert path secret
  | .delete path, M => M.erase path
  | _, M => M

/-- One call: the world it leaves, and the reference map after it. -/
def StoreCall.step (c : StoreCall) (wM : World × GoMap Secret) : World × GoMap Secret :=
  match (c.run P env).run wM.1 with
  | .ok _ w => (w, c.apply wM.2)
  | .error _ w => (w, wM.2)

/-- The calls one after the other. -/
def runCalls (calls : List StoreCall) (wM : World × GoMap Secret) : World × GoMap Secret :=
  calls.foldl (fun wM c => c.step P env wM) wM

end Run

/-- The calls the refinement is stated for: `Set` is given a valid UTF-8
path and a secret that reads back. -/
def StoreCall.Allowed : StoreCall → Prop
  | .set path secret => Utf8.valid path ∧ secret.Readable
  | _ => True

instance : (c : StoreCall) → Decidable c.Allowed
  | .set _ _ => inferInstanceAs (Decidable (_ ∧ _))
  | .init _ | .unlock _ | .lock | .get _ | .delete _ | .exists _ | .list _ | .secretCount =>
    isTrue trivial

/-! ## The invariant -/

/-- The ciphertext `c` holds the caller's secret `s` under `key`: `Set`
stamped it at a time in range and sealed it with a nonce of the right size. -/
def Stores (P : Primitives) (key c : Bytes) (s : Secret) : Prop :=
  ∃ nonce t, nonce.length = gcmNonceSize ∧ t.InRange ∧ c = sealedText P key nonce (stamp s t).marshal

/-- The data `d` holds the map `M` under `key`. -/
structure HoldsMap (P : Primitives) (key : Bytes) (d : VaultData) (M : GoMap Secret) : Prop where
  keys : d.secrets.keys = M.keys
  paths : ∀ p ∈ M.keys, Utf8.valid p
  stores : ∀ p s, M.lookup p = some s → s.Readable ∧ ∃ c, d.secrets.lookup p = some c ∧ Stores P key c s

/-- Metadata as `Initialize` writes it for a vault of key `K`. -/
structure MetaOf (P : Primitives) (K : Bytes) (m : VaultMeta) : Prop where
  writable : m.Writable
  params : m.argon2Params = defaultArgon2Params
  salt : ∃ salt, m.salt = some salt ∧ 16 ≤ salt.length
  blob : ∃ nonce, nonce.length = gcmNonceSize ∧ m.verification = sealedText P K nonce verificationMagic

/-- A vault of key `K` holding `M`: its files, and a store that is locked or
holds a session of key `K` over the data of the data file, all saved. -/
structure VaultHolds (P : Primitives) (K : Bytes) (m : VaultMeta) (d : VaultData) (w : World)
    (M : GoMap Secret) : Prop where
  key_length : K.length = 32
  meta : MetaOf P K m
  metaFile : w.disk.metaFile = some (encodeIndent (m.toJson (.string (Time.formatNano m.createdAt))))
  vaultFile : w.disk.vaultFile = some (encode (dataJson (some d)))
  holds : HoldsMap P K d M
  session : w.store.crypto = none ∨ ∃ c k, Session w c k d ∧ k < w.keys.length ∧ w.key k = K
  clean : w.store.dirty = false
  autoSave : w.store.autoSave = true

/-- Before `Initialize`: no files, no session, nothing stored. -/
structure NoVault (w : World) (M : GoMap Secret) : Prop where
  disk : w.disk = {}
  crypto : w.store.crypto = none
  autoSave : w.store.autoSave = true
  empty : M = GoMap.empty

def Refines (P : Primitives) (w : World) (M : GoMap Secret) : Prop :=
  NoVault w M ∨ ∃ K m d, VaultHolds P K m d w M

/-! ## Maps -/

section Maps

variable {P : Primitives} {K : Bytes} {d : VaultData} {M : GoMap Secret}

theorem HoldsMap.lookup_none (h : HoldsMap P K d M) {p : Bytes} (hp : M.lookup p = none) :
    d.secrets.lookup p = none := by
  have := congrArg (p ∈ ·) h.keys
  simp only [GoMap.mem_keys, hp] at this
  simpa using this

theorem HoldsMap.textValid (h : HoldsMap P K d M) : d.TextValid := by
  intro e he
  have hk : e.1 ∈ M.keys := h.keys ▸ List.mem_map_of_mem Prod.fst he
  obtain ⟨s, hs⟩ := Option.isSome_iff_exists.mp (GoMap.mem_keys.mp hk)
  obtain ⟨-, c, hc, nonce, t, -, -, rfl⟩ := h.stores _ _ hs
  rw [GoMap.lookup_of_mem he, Option.some.injEq] at hc
  exact ⟨h.paths _ hk, hc ▸ Base64.valid_encode _⟩

theorem HoldsMap.insert (h : HoldsMap P K d M) {p c : Bytes} {s : Secret} (hp : Utf8.valid p)
    (hs : s.Readable) (hc : Stores P K c s) :
    HoldsMap P K ⟨d.secrets.insert p c⟩ (M.insert p s) where
  keys := GoMap.keys_insert_congr h.keys p c s
  paths q hq := (GoMap.mem_keys_insertEntry hq).elim (fun h => h ▸ hp) (h.paths q)
  stores q s' hq := by
    by_cases hqp : q = p
    · subst hqp
      simp only [GoMap.lookup_insert_self, Option.some.injEq] at hq ⊢
      subst hq
      exact ⟨hs, c, rfl, hc⟩
    · rw [GoMap.lookup_insert_ne hqp] at hq ⊢
      exact h.stores q s' hq

theorem HoldsMap.erase (h : HoldsMap P K d M) (p : Bytes) :
    HoldsMap P K ⟨d.secrets.erase p⟩ (M.erase p) where
  keys := by simp [GoMap.keys_erase, h.keys]
  paths q hq := h.paths q (by rw [GoMap.keys_erase] at hq; exact (List.mem_filter.mp hq).1)
  stores q s' hq := by
    rw [GoMap.lookup_erase] at hq ⊢
    by_cases hqp : q = p
    · simp [hqp] at hq
    · simp only [hqp, if_false] at hq ⊢
      exact h.stores q s' hq

theorem holdsMap_empty (P : Primitives) (K : Bytes) : HoldsMap P K ⟨GoMap.empty⟩ GoMap.empty where
  keys := rfl
  paths _ h := nomatch h
  stores _ _ h := nomatch h

end Maps

/-! ## Frames -/

section Frames

variable {P : Primitives} {K : Bytes} {m : VaultMeta} {d : VaultData} {M : GoMap Secret} {w w' : World}

theorem NoVault.frame (h : NoVault w M) (hdisk : w'.disk = w.disk) (hcrypto : w'.store.crypto = w.store.crypto)
    (hauto : w'.store.autoSave = w.store.autoSave) : NoVault w' M :=
  ⟨hdisk.trans h.disk, hcrypto.trans h.crypto, hauto.trans h.autoSave, h.empty⟩

/-- A call that leaves the files and the store's fields as they were, and
at most adds key buffers, keeps the vault. -/
theorem VaultHolds.frame (h : VaultHolds P K m d w M) (hdisk : w'.disk = w.disk)
    (hstore : w'.store.crypto = w.store.crypto ∧ w'.store.data = w.store.data ∧
      w'.store.dirty = w.store.dirty ∧ w'.store.autoSave = w.store.autoSave)
    {bs : List KeyBuffer} (hkeys : w'.keys = w.keys ++ bs) : VaultHolds P K m d w' M where
  key_length := h.key_length
  meta := h.meta
  metaFile := hdisk ▸ h.metaFile
  vaultFile := hdisk ▸ h.vaultFile
  holds := h.holds
  session := by
    obtain ⟨hc, hd, -, -⟩ := hstore
    rcases h.session with hn | ⟨c, k, hs, hk, hK⟩
    · exact .inl (hc.trans hn)
    · refine .inr ⟨c, k, ⟨hc.trans hs.crypto, hs.key, hd.trans hs.data⟩, ?_, ?_⟩
      · simp [hkeys]; omega
      · rw [World.key_append_of_lt hkeys hk, hK]
  clean := hstore.2.2.1.trans h.clean
  autoSave := hstore.2.2.2.trans h.autoSave

theorem Refines.frame (h : Refines P w M) (hdisk : w'.disk = w.disk)
    (hstore : w'.store.crypto = w.store.crypto ∧ w'.store.data = w.store.data ∧
      w'.store.dirty = w.store.dirty ∧ w'.store.autoSave = w.store.autoSave)
    {bs : List KeyBuffer} (hkeys : w'.keys = w.keys ++ bs) : Refines P w' M := by
  rcases h with h | ⟨K, m, d, h⟩
  · exact .inl (h.frame hdisk hstore.1 hstore.2.2.2)
  · exact .inr ⟨K, m, d, h.frame hdisk hstore hkeys⟩

end Frames

/-! ## Each call keeps the invariant -/

section Steps

variable {P : Primitives} {env : Env} {w : World} {M : GoMap Secret}

theorem StoreCall.step_ok {c : StoreCall} {w' : World} {u : Unit} (M : GoMap Secret)
    (h : (c.run P env).run w = .ok u w') : c.step P env (w, M) = (w', c.apply M) := by
  simp [StoreCall.step, h]

theorem StoreCall.step_error {c : StoreCall} {w' : World} {f : Fault} (M : GoMap Secret)
    (h : (c.run P env).run w = .error f w') : c.step P env (w, M) = (w', M) := by
  simp [StoreCall.step, h]

theorem resultWorld_discard {α : Type} (x : StoreM α) (w : World) :
    resultWorld ((do let _ ← x : StoreM Unit).run w) = resultWorld (x.run w) := by
  simp only [run_bind]
  cases x.run w <;> rfl

/-- A call that reads only leaves the world and the map as they were. -/
theorem StoreCall.step_read {c : StoreCall} (happly : c.apply M = M)
    (hworld : resultWorld ((c.run P env).run w) = w) : c.step P env (w, M) = (w, M) := by
  simp only [StoreCall.step]
  revert hworld
  cases (c.run P env).run w <;> simp_all

variable (hP : P.Lawful) (hwrites : env.WritesSucceed) (hclock : ∀ i, (env.now i).InRange)
include hP hwrites hclock

theorem refines_init (h : Refines P w M) (password : Bytes) :
    Refines P ((StoreCall.init password).step P env (w, M)).1
      ((StoreCall.init password).step P env (w, M)).2 := by
  rcases h with h | ⟨K, m, d, h⟩
  · have hnone : w.disk.metaFile = none := by simp [h.disk]
    cases hr : env.randFails w.calls
    · cases hr' : env.randFails (w.calls + 1)
      · rw [StoreCall.step_ok (c := .init password) M
          (init_run hP hnone hr hr' (hclock _) hwrites password), h.empty]
        refine .inr ⟨(env.initCrypto w.calls).derivedKey P password, initMeta P env password w.calls,
          ⟨GoMap.empty⟩, ?_⟩
        exact {
          key_length := by simp [derivedKey_length hP, Env.initCrypto]
          meta := {
            writable := ⟨hclock _, by simp [initMeta], defaultArgon2Params_fits, Base64.valid_encode _⟩
            params := rfl
            salt := ⟨_, rfl, by simp [Env.salt]⟩
            blob := ⟨_, nonce_length env _, rfl⟩ }
          metaFile := by simp [Disk.set, initMeta]
          vaultFile := by simp [Disk.set]
          holds := holdsMap_empty P _
          session := .inr ⟨_, _, ⟨rfl, rfl, rfl⟩, by simp, by simp⟩
          clean := rfl
          autoSave := h.autoSave }
      · rw [StoreCall.step_error (c := .init password) M
          (init_run_nonceFails hP hnone hr hr' password)]
        exact .inl (h.frame rfl rfl rfl)
    · rw [StoreCall.step_error (c := .init password) M (init_run_saltFails hnone hr password)]
      exact .inl (h.frame rfl rfl rfl)
  · rw [StoreCall.step_error (c := .init password) M (init_run_exists (by simp [h.metaFile]) password)]
    exact .inr ⟨K, m, d, h⟩

omit hwrites hclock in
theorem refines_unlock (h : Refines P w M) (password : Bytes) :
    Refines P ((StoreCall.unlock password).step P env (w, M)).1
      ((StoreCall.unlock password).step P env (w, M)).2 := by
  rcases h with h | ⟨K, m, d, h⟩
  · rw [StoreCall.step_error (c := .unlock password) M (unlock_run_noVault (by simp [h.disk]) password)]
    exact .inl h
  obtain ⟨salt, hs, hsl⟩ := h.meta.salt
  have hu : m.argon2Params.Usable := h.meta.params ▸ defaultArgon2Params_usable
  cases hr : env.readFails w.calls
  case true =>
    rw [StoreCall.step_error (c := .unlock password) M (unlock_run_metaReadFails h.metaFile hr password)]
    exact .inr ⟨K, m, d, h.frame rfl ⟨rfl, rfl, rfl, rfl⟩ (List.append_nil _).symm⟩
  have hm := readMeta_encodeIndent h.meta.writable
  cases hv : opensToMagic P ((m.crypto salt).derivedKey P password) m.verification
  case false =>
    rw [StoreCall.step_error (c := .unlock password) M
      (unlock_run_wrongPassword h.metaFile hr hm hs hsl hu password hv)]
    exact .inr ⟨K, m, d, h.frame rfl ⟨rfl, rfl, rfl, rfl⟩ rfl⟩
  have hK : (m.crypto salt).derivedKey P password = K := by
    obtain ⟨n, hn, hb⟩ := h.meta.blob
    refine eq_of_opensToMagic hP ?_ hn (hb ▸ hv)
    rw [derivedKey_length hP, h.key_length]
    simp [VaultMeta.crypto, h.meta.params]
  cases hr2 : env.readFails (w.calls + 2)
  case false =>
    rw [StoreCall.step_ok (c := .unlock password) M (unlock_run_loaded h.metaFile hr hm hs hsl hu password hv
      (loadData_run_ok (w := unlockedWorld P env w m salt password) h.vaultFile hr2
        (readData_encode h.holds.textValid)))]
    refine .inr ⟨K, m, d, { h with
      session := .inr ⟨_, _, ⟨rfl, rfl, rfl⟩, by simp [unlockedWorld], ?_⟩
      clean := h.clean
      autoSave := h.autoSave }⟩
    simp [unlockedWorld, World.key, hK, List.getElem_append_right]
  case true =>
    rw [StoreCall.step_error (c := .unlock password) M (unlock_run_loadFails h.metaFile hr hm hs hsl hu password hv
      (loadData_run_readFails (w := unlockedWorld P env w m salt password) h.vaultFile hr2))]
    exact .inr ⟨K, m, d, { h with session := .inl rfl, clean := h.clean, autoSave := h.autoSave }⟩

omit hP hwrites hclock in
theorem refines_lock (h : Refines P w M) :
    Refines P (StoreCall.lock.step P env (w, M)).1 (StoreCall.lock.step P env (w, M)).2 := by
  rcases h with h | ⟨K, m, d, h⟩
  · rw [StoreCall.step_ok (c := .lock) M (lock_run_noSession h.crypto)]
    exact .inl h
  rcases h.session with hn | ⟨c, k, hs, -, -⟩
  · rw [StoreCall.step_ok (c := .lock) M (lock_run_noSession hn)]
    exact .inr ⟨K, m, d, h⟩
  · rw [StoreCall.step_ok (c := .lock) M (lock_run_clean hs.crypto hs.key h.clean)]
    exact .inr ⟨K, m, d, { h with session := .inl rfl, clean := rfl, autoSave := h.autoSave }⟩

omit hP in
theorem refines_set (h : Refines P w M) {path : Bytes} {s : Secret} (hpath : Utf8.valid path)
    (hs : s.Readable) :
    Refines P ((StoreCall.set path s).step P env (w, M)).1 ((StoreCall.set path s).step P env (w, M)).2 := by
  have locked (hn : w.store.crypto = none) := StoreCall.step_error (c := .set path s) M
    (@set_run_locked P env w (by simp [EncryptedStore.isLockedUnsafe, hn]) path s)
  rcases h with h | ⟨K, m, d, h⟩
  · rw [locked h.crypto]
    exact .inl h
  rcases h.session with hn | ⟨c, k, hsess, hk, hK⟩
  · rw [locked hn]
    exact .inr ⟨K, m, d, h⟩
  have hsize : aesKeySizeOk (w.key k) := by simp [aesKeySizeOk, hK, h.key_length]
  cases hr : env.randFails (w.calls + 1)
  case true =>
    rw [StoreCall.step_error (c := .set path s) M (set_run_randFails hsess hsize hr path s)]
    exact .inr ⟨K, m, d, h.frame rfl ⟨rfl, rfl, rfl, rfl⟩ (List.append_nil _).symm⟩
  obtain ⟨hm, -⟩ := hwrites (w.calls + 2)
  obtain ⟨-, hw⟩ := hwrites (w.calls + 3)
  rw [StoreCall.step_ok (c := .set path s) M (set_run hsess h.autoSave hsize hr hm hw path s)]
  refine .inr ⟨K, m, _, {
    key_length := h.key_length
    meta := h.meta
    metaFile := by simp [Disk.set, h.metaFile]
    vaultFile := by simp [Disk.set]
    holds := h.holds.insert hpath hs ⟨_, _, nonce_length env _, hclock _, by rw [hK]; rfl⟩
    session := .inr ⟨c, k, ⟨hsess.crypto, hsess.key, rfl⟩, hk, hK⟩
    clean := rfl
    autoSave := h.autoSave }⟩

omit hP hclock in
theorem refines_delete (h : Refines P w M) (path : Bytes) :
    Refines P ((StoreCall.delete path).step P env (w, M)).1 ((StoreCall.delete path).step P env (w, M)).2 := by
  have locked (hn : w.store.crypto = none) := StoreCall.step_error (c := .delete path) M
    (P := P) (@delete_run_locked env w (by simp [EncryptedStore.isLockedUnsafe, hn]) path)
  rcases h with h | ⟨K, m, d, h⟩
  · rw [locked h.crypto]
    exact .inl h
  rcases h.session with hn | ⟨c, k, hsess, hk, hK⟩
  · rw [locked hn]
    exact .inr ⟨K, m, d, h⟩
  obtain ⟨hm, -⟩ := hwrites w.calls
  obtain ⟨-, hw⟩ := hwrites (w.calls + 1)
  rw [StoreCall.step_ok (c := .delete path) M (delete_run hsess h.autoSave hm hw path)]
  exact .inr ⟨K, m, _, {
    key_length := h.key_length
    meta := h.meta
    metaFile := by simp [Disk.set, h.metaFile]
    vaultFile := by simp [Disk.set]
    holds := h.holds.erase path
    session := .inr ⟨c, k, ⟨hsess.crypto, hsess.key, rfl⟩, hk, hK⟩
    clean := rfl
    autoSave := h.autoSave }⟩

omit hP hwrites hclock in
/-- `Get`, `Exists`, `List` and `SecretCount` read only. -/
theorem refines_read {c : StoreCall} (hc : c = .get path ∨ c = .exists path ∨ c = .list path ∨ c = .secretCount)
    (h : Refines P w M) : Refines P (c.step P env (w, M)).1 (c.step P env (w, M)).2 := by
  suffices c.step P env (w, M) = (w, M) by rw [this]; exact h
  rcases hc with rfl | rfl | rfl | rfl
  · exact StoreCall.step_read rfl ((resultWorld_discard _ w).trans (get_world path w))
  · exact StoreCall.step_read rfl ((resultWorld_discard _ w).trans (exists_world path w))
  · exact StoreCall.step_read rfl ((resultWorld_discard _ w).trans (list_world path w))
  · exact StoreCall.step_read rfl ((resultWorld_discard _ w).trans (by simp [secretCount_run]))

theorem refines_step (c : StoreCall) (hc : c.Allowed) (h : Refines P w M) :
    Refines P (c.step P env (w, M)).1 (c.step P env (w, M)).2 := by
  cases c with
  | init password => exact refines_init hP hwrites hclock h password
  | unlock password => exact refines_unlock hP h password
  | lock => exact refines_lock h
  | get path => exact refines_read (.inl rfl) h
  | set path s => exact refines_set hwrites hclock h hc.1 hc.2
  | delete path => exact refines_delete hwrites h path
  | «exists» path => exact refines_read (.inr (.inl rfl)) h
  | list pre => exact refines_read (.inr (.inr (.inl rfl))) h
  | secretCount => exact @refines_read _ _ _ _ [] _ (.inr (.inr (.inr rfl))) h

/-- Every run of allowed calls keeps the invariant. -/
theorem refines_runCalls (calls : List StoreCall) (hcalls : ∀ c ∈ calls, c.Allowed)
    (wM : World × GoMap Secret) (h : Refines P wM.1 wM.2) :
    Refines P (runCalls P env calls wM).1 (runCalls P env calls wM).2 := by
  induction calls generalizing wM with
  | nil => exact h
  | cons c calls ih =>
    exact ih (fun c' hc' => hcalls c' (List.mem_cons_of_mem c hc')) _
      (refines_step hP hwrites hclock c (hcalls c (List.mem_cons_self c calls)) h)

end Steps

/-! ## What the store answers -/

/-- What an unlocked store answers, read off the map `M`: the secret at a
path with its value, bytes, fields and tags, or `ErrSecretNotFound`; whether
a path is there; the paths with a prefix, in increasing order; the size. -/
structure AnswersAs (P : Primitives) (w : World) (M : GoMap Secret) : Prop where
  get_found : ∀ p s, M.lookup p = some s → ∃ s', (EncryptedStore.get P p).run w = .ok s' w ∧
    s'.value = s.value ∧ s'.valueBytes = s.valueBytes ∧ s'.fields = s.fields ∧
    s'.metadata.tags = s.metadata.tags
  get_missing : ∀ p, M.lookup p = none → (EncryptedStore.get P p).run w = .error (.error .secretNotFound) w
  «exists» : ∀ p, (EncryptedStore.exists p).run w = .ok (M.lookup p).isSome w
  list : ∀ q, (EncryptedStore.list q).run w = .ok (M.keys.filter fun p => Bytes.hasPrefix p q) w ∧
    (M.keys.filter fun p => Bytes.hasPrefix p q).Pairwise fun a b => Bytes.lt a b
  secretCount : EncryptedStore.secretCount.run w = .ok M.size w

/-- What a locked store answers: the locked error, with nothing changed. -/
structure RefusesLocked (P : Primitives) (env : Env) (w : World) : Prop where
  get : ∀ p, (EncryptedStore.get P p).run w = .error lockedError w
  set : ∀ p s, (EncryptedStore.set P env p s).run w = .error lockedError w
  delete : ∀ p, (EncryptedStore.delete env p).run w = .error lockedError w
  «exists» : ∀ p, (EncryptedStore.exists p).run w = .error lockedError w
  list : ∀ q, (EncryptedStore.list q).run w = .error lockedError w

section Answers

variable {P : Primitives} {env : Env} {w : World} {M : GoMap Secret}

theorem refusesLocked (h : w.store.isLockedUnsafe = true) : RefusesLocked P env w :=
  ⟨get_run_locked h, set_run_locked h, delete_run_locked h, exists_run_locked h, list_run_locked h⟩

/-- From the invariant, an unlocked store answers as the map does. -/
theorem Refines.answersAs (hP : P.Lawful) (h : Refines P w M) (hu : w.store.isLockedUnsafe = false) :
    AnswersAs P w M := by
  obtain ⟨K, m, d, h⟩ : ∃ K m d, VaultHolds P K m d w M := by
    rcases h with h | h
    · simp [EncryptedStore.isLockedUnsafe, h.crypto] at hu
    · exact h
  obtain ⟨c, k, hs, -, hK⟩ : ∃ c k, Session w c k d ∧ k < w.keys.length ∧ w.key k = K := by
    rcases h.session with hn | h'
    · simp [EncryptedStore.isLockedUnsafe, hn] at hu
    · exact h'
  have hsize : aesKeySizeOk (w.key k) := by simp [aesKeySizeOk, hK, h.key_length]
  have hsome (p : Bytes) : (d.secrets.lookup p).isSome = (M.lookup p).isSome := by
    have := congrArg (p ∈ ·) h.holds.keys
    simpa [GoMap.mem_keys] using this
  refine ⟨?_, fun p hp => get_run_missing hs (h.holds.lookup_none hp), fun p => ?_, fun q => ?_, ?_⟩
  · intro p s hp
    obtain ⟨hst, c', hl, nonce, t, hn, ht, rfl⟩ := h.holds.stores p s hp
    refine ⟨(stamp s t).readBack, ?_, rfl, rfl, rfl, rfl⟩
    rw [← hK] at hl
    rw [get_run_sealed hs hP hsize hn hl, Secret.unmarshal_marshal_readBack (readable_stamp hst ht.writable)]
  · rw [exists_run hs, hsome]
  · have hpre (p : Bytes) : (q.isEmpty || Bytes.hasPrefix p q) = Bytes.hasPrefix p q := by
      cases q <;> simp
    have hsorted : (M.keys.filter fun p => Bytes.hasPrefix p q).Pairwise fun a b => Bytes.lt a b :=
      M.sorted.sublist (List.filter_sublist _)
    rw [list_run hs, h.holds.keys]
    simp only [hpre]
    exact ⟨by rw [Bytes.sortStrings_of_increasing hsorted], hsorted⟩
  · simp [secretCount_run, hs.data, GoMap.size_eq_length_keys, h.holds.keys]

end Answers

/-- `EncryptedStore` refines a finite map: over every run of calls from no
files and a fresh store in which every write succeeds, the clock reads times
in range and `Set` is given valid UTF-8 paths and secrets that read back, an
unlocked store answers `Get`, `Exists`, `List` and `SecretCount` as the map
of the `Set`s and `Delete`s that returned, and a locked one refuses
`Get`, `Set`, `Delete`, `Exists` and `List` with nothing changed. -/
theorem store_refines_map {P : Primitives} {env : Env} (hP : P.Lawful) (hwrites : env.WritesSucceed)
    (hclock : ∀ i, (env.now i).InRange) (calls : List StoreCall) (hcalls : ∀ c ∈ calls, c.Allowed) :
    let r := runCalls P env calls ({}, GoMap.empty)
    (r.1.store.isLockedUnsafe = false → AnswersAs P r.1 r.2) ∧
      (r.1.store.isLockedUnsafe = true → RefusesLocked P env r.1) :=
  ⟨(refines_runCalls hP hwrites hclock calls hcalls _ (.inl ⟨rfl, rfl, rfl, rfl⟩)).answersAs hP,
    refusesLocked⟩

/-- A vault made, a secret set and read, the store locked and unlocked, its paths listed. -/
def sampleCalls : List StoreCall :=
  [.init (.ofString "hunter2"), .set (.ofString "db/password") { value := .ofString "s3cret" },
    .get (.ofString "db/password"), .lock, .unlock (.ofString "hunter2"), .list (.ofString "db/")]

theorem store_refines_map_sample :
    Primitives.standIn.Lawful ∧ (Env.reliable Time.zero).WritesSucceed ∧
      (∀ i, ((Env.reliable Time.zero).now i).InRange) ∧ (∀ c ∈ sampleCalls, c.Allowed) ∧
      let r := runCalls Primitives.standIn (Env.reliable Time.zero) sampleCalls ({}, GoMap.empty)
      (r.1.store.isLockedUnsafe = false → AnswersAs Primitives.standIn r.1 r.2) ∧
        (r.1.store.isLockedUnsafe = true → RefusesLocked Primitives.standIn (Env.reliable Time.zero) r.1) :=
  ⟨Primitives.standIn_lawful, fun _ => ⟨rfl, rfl⟩, fun _ => Time.zero_inRange, by decide,
    @store_refines_map Primitives.standIn (Env.reliable Time.zero) Primitives.standIn_lawful (fun _ => ⟨rfl, rfl⟩)
      (fun _ => Time.zero_inRange)
      sampleCalls (by decide)⟩

set_option maxRecDepth 100000 in
/-- A value that is not valid UTF-8 does not come back: `Set` stores `0xFF`,
and `Get` returns U+FFFD in its place, on an unlocked store. -/
theorem set_get_rewrites_invalid_utf8 :
    let r := runCalls Primitives.standIn (Env.reliable Time.zero)
      [.init (.ofString "hunter2"), .set (.ofString "k") { value := [0xFF] }] ({}, GoMap.empty)
    r.1.store.isLockedUnsafe = false ∧ r.2.lookup (.ofString "k") = some { value := [0xFF] } ∧
      (resultValue ((EncryptedStore.get Primitives.standIn (.ofString "k")).run r.1)).map (·.value) =
        some [0xEF, 0xBF, 0xBD] := by
  decide

end OmniVault.Store
