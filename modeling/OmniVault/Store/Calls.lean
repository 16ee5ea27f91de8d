import OmniVault.Store.EncryptedStore

/-!
What each method of `EncryptedStore` does, one lemma per method and per way
it can end: a method called on a locked store, the reads of an unlocked one,
and the calls that change the vault when the operating system lets them.
Later proofs cite these and never unfold a method.
-/

namespace OmniVault.Store

open Vault Json

variable {P : Primitives} {env : Env} {w : World}

/-! ## Saving -/

theorem saveData_run_ok (hm : env.mkdirOk w.calls = true) (hw : env.write (w.calls + 1) = .ok) :
    (saveData env).run w = .ok ()
      { w with
        calls := w.calls + 2
        disk := w.disk.set .vault (some (encode (dataJson w.store.data)))
        store := { w.store with dirty := false } } := by
  simp [saveData, mkdirAll_run, hm, writeFile_run, hw]

theorem saveMeta_run_ok {m : VaultMeta} (hs : w.store.meta = some m) (hc : m.createdAt.InRange)
    (hm : env.mkdirOk w.calls = true) (hw : env.write (w.calls + 1) = .ok) :
    (saveMeta env).run w = .ok ()
      { w with
        calls := w.calls + 2
        disk := w.disk.set .meta (some (encodeIndent (m.toJson (.string (Time.formatNano m.createdAt))))) } := by
  simp [saveMeta, mkdirAll_run, hm, writeFile_run, hw, hs, metaJson_some hc]

/-! ## Initialize -/

/-- The session `Initialize` opens at call `i`: a fresh salt, the default parameters. -/
def Env.initCrypto (env : Env) (i : Nat) : Crypto := ⟨defaultArgon2Params, env.salt i, none⟩

/-- The metadata `Initialize` makes at call `i` for `password`. -/
def initMeta (P : Primitives) (env : Env) (password : Bytes) (i : Nat) : VaultMeta :=
  ⟨1, env.now (i + 2), some (env.salt i), defaultArgon2Params,
    sealedText P ((env.initCrypto i).derivedKey P password) (env.nonce (i + 1)) verificationMagic⟩

theorem init_run_exists (h : w.disk.metaFile ≠ none) (password : Bytes) :
    (EncryptedStore.init P env password).run w =
      .error (.error (.text (.ofString "vault already exists"))) w := by
  obtain ⟨b, hb⟩ := Option.ne_none_iff_exists'.mp h
  simp [EncryptedStore.init, EncryptedStore.vaultExists, Disk.get, hb]

theorem init_run (hP : P.Lawful) (hnone : w.disk.metaFile = none) (hr : env.randFails w.calls = false)
    (hr' : env.randFails (w.calls + 1) = false) (hclock : (env.now (w.calls + 2)).InRange)
    (hwrites : env.WritesSucceed) (password : Bytes) :
    (EncryptedStore.init P env password).run w = .ok ()
      { store := { w.store with
          meta := some (initMeta P env password w.calls)
          data := some ⟨GoMap.empty⟩
          crypto := some { env.initCrypto w.calls with key := some w.keys.length }
          unlockTime := env.now (w.calls + 3)
          dirty := false }
        disk := (w.disk.set .meta (some (encodeIndent ((initMeta P env password w.calls).toJson
            (.string (Time.formatNano (env.now (w.calls + 2)))))))).set .vault
              (some (encode (dataJson (some ⟨GoMap.empty⟩))))
        keys := w.keys ++ [⟨(env.initCrypto w.calls).derivedKey P password, false⟩]
        calls := w.calls + 8 } := by
  have hm : ∀ i, env.mkdirOk i = true := fun i => (hwrites i).1
  have hw : ∀ i, env.write i = .ok := fun i => (hwrites i).2
  simp [EncryptedStore.init, EncryptedStore.vaultExists, Disk.get, hnone, newCrypto_run_fresh hr,
    unlock_run, defaultArgon2Params_usable, Crypto.createVerificationBlob, Crypto.encryptString,
    Crypto.encrypt, keyBytes_run, derivedKey_length hP, aesKeySizeOk, randRead_run, hr', Nat.add_assoc]
  rw [saveMeta_run_ok (m := initMeta P env password w.calls) rfl hclock (hm _) (hw _)]
  simp only [wrapErr_run]
  rw [saveData_run_ok (hm _) (hw _)]
  rfl

theorem init_run_saltFails (hnone : w.disk.metaFile = none) (hr : env.randFails w.calls = true)
    (password : Bytes) :
    (EncryptedStore.init P env password).run w =
      .error (.error (.wrap (.ofString "failed to create crypto")
        (.wrap (.ofString "failed to generate salt") (.lib (.ofString "crypto/rand")))))
        { w with calls := w.calls + 1 } := by
  simp [EncryptedStore.init, EncryptedStore.vaultExists, Disk.get, hnone, newCrypto_run_randFails hr]

theorem init_run_nonceFails (hP : P.Lawful) (hnone : w.disk.metaFile = none)
    (hr : env.randFails w.calls = false) (hr' : env.randFails (w.calls + 1) = true) (password : Bytes) :
    (EncryptedStore.init P env password).run w =
      .error (.error (.wrap (.ofString "failed to create verification")
        (.wrap (.ofString "failed to generate nonce") (.lib (.ofString "crypto/rand")))))
        { w with
          calls := w.calls + 2
          keys := w.keys ++ [⟨((env.initCrypto w.calls).derivedKey P password).map fun _ => 0, true⟩] } := by
  simp [EncryptedStore.init, EncryptedStore.vaultExists, Disk.get, hnone, newCrypto_run_fresh hr,
    unlock_run, defaultArgon2Params_usable, Crypto.createVerificationBlob, Crypto.encryptString,
    Crypto.encrypt, keyBytes_run, derivedKey_length hP, aesKeySizeOk, randRead_run, hr', lock_run,
    modify_append_length, Env.initCrypto]

/-! ## Loading -/

theorem loadData_run_ok {b : Bytes} {d : VaultData} (hf : w.disk.vaultFile = some b)
    (hr : env.readFails w.calls = false) (hd : readData b = some d) :
    (loadData env).run w = .ok () { w with calls := w.calls + 1, store := { w.store with data := some d } } := by
  simp [loadData, readFile_run, Disk.get, hf, hr, hd]

theorem loadData_run_readFails {b : Bytes} (hf : w.disk.vaultFile = some b) (hr : env.readFails w.calls = true) :
    (loadData env).run w = .error (.error (.os (.ofString "read") false)) { w with calls := w.calls + 1 } := by
  simp [loadData, readFile_run, Disk.get, hf, hr]

theorem loadMeta_run_ok {b : Bytes} {m : VaultMeta} (hf : w.disk.metaFile = some b)
    (hr : env.readFails w.calls = false) (hm : readMeta b = some m) :
    (loadMeta env).run w = .ok () { w with calls := w.calls + 1, store := { w.store with meta := some m } } := by
  simp [loadMeta, readFile_run, Disk.get, hf, hr, hm]

/-! ## Unlock -/

theorem unlock_run_noVault (h : w.disk.metaFile = none) (password : Bytes) :
    (EncryptedStore.unlock P env password).run w =
      .error (.error (.text (.ofString "vault does not exist, run init first"))) w := by
  simp [EncryptedStore.unlock, EncryptedStore.vaultExists, Disk.get, h]

theorem unlock_run_metaReadFails {b : Bytes} (hf : w.disk.metaFile = some b)
    (hr : env.readFails w.calls = true) (password : Bytes) :
    (EncryptedStore.unlock P env password).run w =
      .error (.error (.wrap (.ofString "failed to load metadata") (.os (.ofString "read") false)))
        { w with calls := w.calls + 1 } := by
  simp [EncryptedStore.unlock, EncryptedStore.vaultExists, Disk.get, hf, loadMeta, readFile_run, hr]

/-- The session `Unlock` opens from metadata `m`. -/
def VaultMeta.crypto (m : VaultMeta) (salt : Bytes) : Crypto := ⟨m.argon2Params, salt, none⟩

section Unlock

variable {b : Bytes} {m : VaultMeta} {salt : Bytes} (hf : w.disk.metaFile = some b)
  (hr : env.readFails w.calls = false) (hm : readMeta b = some m) (hs : m.salt = some salt)
  (hsl : 16 ≤ salt.length) (hu : m.argon2Params.Usable) (password : Bytes)
include hf hr hm hs hsl hu

theorem unlock_run_wrongPassword
    (hv : opensToMagic P ((m.crypto salt).derivedKey P password) m.verification = false) :
    (EncryptedStore.unlock P env password).run w =
      .error (.error (.text (.ofString "invalid password")))
        { w with
          calls := w.calls + 1
          store := { w.store with meta := some m }
          keys := w.keys ++ [⟨((m.crypto salt).derivedKey P password).map fun _ => 0, true⟩] } := by
  simp only [VaultMeta.crypto] at hv ⊢
  simp [EncryptedStore.unlock, EncryptedStore.vaultExists, Disk.get, hf, loadMeta_run_ok hf hr hm, hs,
    newCrypto_run_salt hsl, verifyPassword_run, hu, hv]

/-- The world in which `Unlock` loads the data file: the metadata loaded, the
buffer `VerifyPassword` used zeroed, and the new session's key in the next one. -/
def unlockedWorld (P : Primitives) (env : Env) (w : World) (m : VaultMeta) (salt password : Bytes) : World :=
  { store := { w.store with
      meta := some m
      crypto := some { m.crypto salt with key := some (w.keys.length + 1) }
      unlockTime := env.now (w.calls + 1) }
    disk := w.disk
    keys := w.keys ++ [⟨((m.crypto salt).derivedKey P password).map fun _ => 0, true⟩,
      ⟨(m.crypto salt).derivedKey P password, false⟩]
    calls := w.calls + 2 }

variable (hv : opensToMagic P ((m.crypto salt).derivedKey P password) m.verification = true)
include hv

/-- `Unlock` with a password that opens the verification blob, when the data file loads. -/
theorem unlock_run_loaded {w' : World}
    (hload : (loadData env).run (unlockedWorld P env w m salt password) = .ok () w') :
    (EncryptedStore.unlock P env password).run w = .ok () w' := by
  simp only [VaultMeta.crypto, unlockedWorld, List.map_const'] at hv hload ⊢
  simp [EncryptedStore.unlock, EncryptedStore.vaultExists, Disk.get, hf, loadMeta_run_ok hf hr hm, hs,
    newCrypto_run_salt hsl, verifyPassword_run, hu, hv, unlock_run, Nat.add_assoc, hload]

/-- `Unlock` with a password that opens the verification blob, when the data
file fails to load: the new session is closed again. -/
theorem unlock_run_loadFails {w' : World} {e : GoError}
    (hload : (loadData env).run (unlockedWorld P env w m salt password) = .error (.error e) w') :
    (EncryptedStore.unlock P env password).run w =
      .error (.error (.wrap (.ofString "failed to load vault data") e))
        { w' with
          keys := w'.keys.modify (fun b => ⟨b.bytes.map fun _ => 0, true⟩) (w.keys.length + 1)
          store := { w'.store with crypto := none } } := by
  simp only [VaultMeta.crypto, unlockedWorld, List.map_const'] at hv hload ⊢
  simp [EncryptedStore.unlock, EncryptedStore.vaultExists, Disk.get, hf, loadMeta_run_ok hf hr hm, hs,
    newCrypto_run_salt hsl, verifyPassword_run, hu, hv, unlock_run, Nat.add_assoc, hload, lock_run]

end Unlock

/-! ## Lock -/

theorem lock_run_noSession (h : w.store.crypto = none) : (EncryptedStore.lock env).run w = .ok () w := by
  simp [EncryptedStore.lock, h]

/-- `Lock` of a session with nothing to save: the key zeroed, the session and the data dropped. -/
theorem lock_run_clean {c : Crypto} {k : Nat} (hc : w.store.crypto = some c) (hk : c.key = some k)
    (hd : w.store.dirty = false) :
    (EncryptedStore.lock env).run w = .ok ()
      { w with
        keys := w.keys.modify (fun b => ⟨b.bytes.map fun _ => 0, true⟩) k
        store := { w.store with crypto := none, data := none, dirty := false } } := by
  simp [EncryptedStore.lock, hc, hd, lock_run, hk]

/-! ## Locked and unlocked -/

/-- The error of a method called on a locked store. -/
def lockedError : Fault := .error (.text (.ofString "vault is locked"))

/-- A store whose session holds the key buffer `k`, with data `d` in memory. -/
structure Session (w : World) (c : Crypto) (k : Nat) (d : VaultData) : Prop where
  crypto : w.store.crypto = some c
  key : c.key = some k
  data : w.store.data = some d

theorem Session.unlocked {c : Crypto} {k : Nat} {d : VaultData} (h : Session w c k d) :
    w.store.isLockedUnsafe = false := by
  simp [EncryptedStore.isLockedUnsafe, h.crypto, Crypto.isUnlocked, h.key]

section Locked

variable (h : w.store.isLockedUnsafe = true)
include h

theorem get_run_locked (path : Bytes) : (EncryptedStore.get P path).run w = .error lockedError w := by
  simp [EncryptedStore.get, h, lockedError]

theorem set_run_locked (path : Bytes) (s : Secret) :
    (EncryptedStore.set P env path s).run w = .error lockedError w := by
  simp [EncryptedStore.set, h, lockedError]

theorem delete_run_locked (path : Bytes) : (EncryptedStore.delete env path).run w = .error lockedError w := by
  simp [EncryptedStore.delete, h, lockedError]

theorem exists_run_locked (path : Bytes) : (EncryptedStore.exists path).run w = .error lockedError w := by
  simp [EncryptedStore.exists, h, lockedError]

theorem list_run_locked (pre : Bytes) : (EncryptedStore.list pre).run w = .error lockedError w := by
  simp [EncryptedStore.list, h, lockedError]

end Locked

section Unlocked

variable {c : Crypto} {k : Nat} {d : VaultData} (h : Session w c k d)
include h

theorem exists_run (path : Bytes) :
    (EncryptedStore.exists path).run w = .ok (d.secrets.lookup path).isSome w := by
  simp [EncryptedStore.exists, h.unlocked, h.data]

theorem list_run (pre : Bytes) :
    (EncryptedStore.list pre).run w =
      .ok (Bytes.sortStrings (d.secrets.keys.filter fun path => pre.isEmpty || Bytes.hasPrefix path pre)) w := by
  simp [EncryptedStore.list, h.unlocked, h.data]

theorem get_run_missing {path : Bytes} (hl : d.secrets.lookup path = none) :
    (EncryptedStore.get P path).run w = .error (.error .secretNotFound) w := by
  simp [EncryptedStore.get, h.unlocked, h.data, hl]

/-- `Get` of a path whose ciphertext was sealed under the session's key. -/
theorem get_run_sealed (hP : P.Lawful) (hsize : aesKeySizeOk (w.key k)) {path nonce b : Bytes}
    (hn : nonce.length = gcmNonceSize) (hl : d.secrets.lookup path = some (sealedText P (w.key k) nonce b)) :
    (EncryptedStore.get P path).run w = match Secret.unmarshal b with
      | some s => .ok s w
      | none => .error (.error (.wrap (.ofString "failed to unmarshal secret") jsonError)) w := by
  simp only [EncryptedStore.get, run_bind, getStore_run, h.unlocked, h.data, h.crypto, hl]
  simp [Crypto.decryptString, decrypt_sealedText hP h.key hsize hn]
  cases Secret.unmarshal b <;> rfl

/-- The ciphertext `Set` stores for `s` at call `i` of a session with key `key`. -/
def setCiphertext (P : Primitives) (env : Env) (key : Bytes) (i : Nat) (s : Secret) : Bytes :=
  sealedText P key (env.nonce (i + 1)) (stamp s (env.now i)).marshal

theorem set_run (hauto : w.store.autoSave = true) (hsize : aesKeySizeOk (w.key k))
    (hrand : env.randFails (w.calls + 1) = false) (hm : env.mkdirOk (w.calls + 2) = true)
    (hw : env.write (w.calls + 3) = .ok) (path : Bytes) (s : Secret) :
    (EncryptedStore.set P env path s).run w = .ok ()
      { w with
        calls := w.calls + 4
        disk := w.disk.set .vault
          (some (encode (dataJson (some ⟨d.secrets.insert path (setCiphertext P env (w.key k) w.calls s)⟩))))
        store := { w.store with
          data := some ⟨d.secrets.insert path (setCiphertext P env (w.key k) w.calls s)⟩
          dirty := false } } := by
  simp only [EncryptedStore.set, run_bind, getStore_run, h.unlocked, h.crypto, h.data, hauto, now_run]
  simp [Crypto.encryptString, encrypt_run (w := { w with calls := w.calls + 1 }) h.key hsize hrand,
    saveData_run_ok, hm, hw, setCiphertext, h.crypto, hauto]

theorem set_run_randFails (hsize : aesKeySizeOk (w.key k)) (hrand : env.randFails (w.calls + 1) = true) (path : Bytes) (s : Secret) :
    (EncryptedStore.set P env path s).run w =
      .error (.error (.wrap (.ofString "failed to encrypt secret")
        (.wrap (.ofString "failed to generate nonce") (.lib (.ofString "crypto/rand")))))
        { w with calls := w.calls + 2 } := by
  simp only [EncryptedStore.set, run_bind, getStore_run, h.unlocked, h.crypto, h.data, now_run]
  simp [Crypto.encryptString, encrypt_run_randFails (w := { w with calls := w.calls + 1 }) h.key hsize hrand]

theorem delete_run (hauto : w.store.autoSave = true) (hm : env.mkdirOk w.calls = true)
    (hw : env.write (w.calls + 1) = .ok) (path : Bytes) :
    (EncryptedStore.delete env path).run w = .ok ()
      { w with
        calls := w.calls + 2
        disk := w.disk.set .vault (some (encode (dataJson (some ⟨d.secrets.erase path⟩))))
        store := { w.store with data := some ⟨d.secrets.erase path⟩, dirty := false } } := by
  simp [EncryptedStore.delete, h.unlocked, h.data, hauto, saveData_run_ok, hm, hw]

end Unlocked

theorem secretCount_run : (EncryptedStore.secretCount).run w =
    .ok (match w.store.data with | none => 0 | some d => d.secrets.size) w := by
  simp only [EncryptedStore.secretCount, run_bind, getStore_run]
  cases w.store.data <;> rfl

/-! ## Reads change nothing -/

theorem get_world (path : Bytes) (w : World) : resultWorld ((EncryptedStore.get P path).run w) = w := by
  rcases hl : w.store.isLockedUnsafe with _ | _
  · rcases hd : w.store.data with _ | d
    · simp [EncryptedStore.get, hl, hd]
    rcases he : d.secrets.lookup path with _ | e
    · simp [EncryptedStore.get, hl, hd, he]
    rcases hc : w.store.crypto with _ | c
    · simp [EncryptedStore.get, hl, hd, he, hc]
    have hw := decrypt_world (P := P) c e w
    simp only [EncryptedStore.get, run_bind, getStore_run, hl, hd, he, hc, Crypto.decryptString, wrapErr_run,
      Bool.false_eq_true, if_false, run_pure]
    rcases h : (c.decrypt P e).run w with ⟨b, w'⟩ | ⟨f, w'⟩ <;>
      simp only [h, resultWorld_ok, resultWorld_error] at hw ⊢ <;> subst hw
    · cases Secret.unmarshal b <;> rfl
    · cases f <;> rfl
  · simp [EncryptedStore.get, hl]

theorem exists_world (path : Bytes) (w : World) : resultWorld ((EncryptedStore.exists path).run w) = w := by
  simp only [EncryptedStore.exists, run_bind, getStore_run]
  split_ifs
  · rfl
  rcases w.store.data with _ | d <;> rfl

theorem list_world (pre : Bytes) (w : World) : resultWorld ((EncryptedStore.list pre).run w) = w := by
  simp only [EncryptedStore.list, run_bind, getStore_run]
  split_ifs
  · rfl
  rcases w.store.data with _ | d <;> rfl

end OmniVault.Store
