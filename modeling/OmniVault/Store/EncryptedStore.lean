import OmniVault.Store.Persist

/-!
`EncryptedStore`'s methods, each one call of the store: `Initialize`,
`VaultExists`, `Unlock`, `Lock`, `IsLocked`, `Get`, `Set`, `Delete`,
`Exists`, `List`, `SecretCount` and `ChangePassword`.

Every method holds the store's mutex for its whole run, so each is one step
on the `World`. A method that reads a field through a nil pointer panics, as
Go does. `Set` stamps the caller's secret before storing it; the stamped
secret is what is stored. Go ranges over a map in an order of its own
choosing; `ChangePassword`'s loop takes it from `Env.mapOrder`.
-/

namespace OmniVault.Store

open Vault

/-- `s.isLockedUnsafe()`. -/
def EncryptedStore.isLockedUnsafe (s : EncryptedStore) : Bool :=
  match s.crypto with
  | none => true
  | some c => !c.isUnlocked

section

variable (P : Primitives) (env : Env)

/-- `s.VaultExists()`. -/
def EncryptedStore.vaultExists : StoreM Bool := fileExists .meta

/-- `s.Initialize(password)`, named for the `init` command that calls it. -/
def EncryptedStore.init (password : Bytes) : StoreM Unit := do
  if ← EncryptedStore.vaultExists then fail "vault already exists"
  let crypto ← wrapErr (.ofString "failed to create crypto") (newCrypto env none defaultArgon2Params)
  let crypto ← crypto.unlock P password
  let verification ← onError (crypto.createVerificationBlob P env) fun e => do
    let _ ← crypto.lock
    throw (.error (.wrap (.ofString "failed to create verification") e))
  let createdAt ← now env
  modifyStore fun s =>
    { s with meta := some ⟨1, createdAt, some crypto.salt, crypto.params, verification⟩ }
  modifyStore fun s => { s with data := some ⟨GoMap.empty⟩ }
  modifyStore fun s => { s with crypto := some crypto }
  let unlockTime ← now env
  modifyStore fun s => { s with unlockTime }
  wrapErr (.ofString "failed to save metadata") (saveMeta env)
  wrapErr (.ofString "failed to save data") (saveData env)

/-- `s.Unlock(password)`. -/
def EncryptedStore.unlock (password : Bytes) : StoreM Unit := do
  unless ← EncryptedStore.vaultExists do fail "vault does not exist, run init first"
  wrapErr (.ofString "failed to load metadata") (loadMeta env)
  let some meta := (← getStore).meta | nilDereference
  let crypto ← wrapErr (.ofString "failed to create crypto") (newCrypto env meta.salt meta.argon2Params)
  unless ← crypto.verifyPassword P password meta.verification do fail "invalid password"
  let crypto ← crypto.unlock P password
  modifyStore fun s => { s with crypto := some crypto }
  let unlockTime ← now env
  modifyStore fun s => { s with unlockTime }
  onError (loadData env) fun e => do
    let _ ← crypto.lock
    modifyStore fun s => { s with crypto := none }
    throw (.error (.wrap (.ofString "failed to load vault data") e))

/-- `s.Lock()`. -/
def EncryptedStore.lock : StoreM Unit := do
  let s ← getStore
  let some crypto := s.crypto | pure ()
  if s.dirty then wrapErr (.ofString "failed to save data") (saveData env)
  let _ ← crypto.lock
  modifyStore fun s => { s with crypto := none, data := none, dirty := false }

/-- `s.IsLocked()`. -/
def EncryptedStore.isLocked : StoreM Bool := do return (← getStore).isLockedUnsafe

/-- `s.Get(ctx, path)`. -/
def EncryptedStore.get (path : Bytes) : StoreM Secret := do
  let s ← getStore
  if s.isLockedUnsafe then fail "vault is locked"
  let some data := s.data | nilDereference
  let some encrypted := data.secrets.lookup path | throw (.error .secretNotFound)
  let some crypto := s.crypto | nilDereference
  let decrypted ← wrapErr (.ofString "failed to decrypt secret") (crypto.decryptString P encrypted)
  let some secret := Secret.unmarshal decrypted
    | throw (.error (.wrap (.ofString "failed to unmarshal secret") jsonError))
  pure secret

/-- The secret `Set` stores: `CreatedAt` stamped when nil, `ModifiedAt` always. -/
def stamp (secret : Secret) (t : Time) : Secret :=
  { secret with metadata := { secret.metadata with
      createdAt := secret.metadata.createdAt.orElse fun _ => some t
      modifiedAt := some t } }

theorem valid_format (t : Time) : Utf8.valid (Time.format t) :=
  Utf8.valid_ascii (Time.appendFormatRFC3339_ascii t false)

/-- Stamping adds only ASCII text: a secret's texts stay as valid as they were. -/
theorem textValid_stamp (s : Secret) (t : Time) : (stamp s t).textValid = s.textValid := by
  have h1 : Utf8.valid (Bytes.ofString "createdAt") := by decide
  have h2 : Utf8.valid (Bytes.ofString "modifiedAt") := by decide
  cases hc : s.metadata.createdAt <;> cases hm : s.metadata.modifiedAt <;>
    simp [Secret.textValid, Secret.toJson, Metadata.toJson, stamp, timestampMember, Json.encodeTimestamp,
      hc, hm, valid_format, Json.validText.validTextMembers, h1, h2]

theorem timesInRange_stamp {s : Secret} (hs : s.metadata.TimesInRange) {t : Time} (ht : t.InRange) :
    (stamp s t).metadata.TimesInRange := by
  obtain ⟨hc, -, he⟩ := hs
  refine ⟨?_, ht, he⟩
  cases h : s.metadata.createdAt <;> simp_all [stamp, timeInRange]

theorem storable_stamp {s : Secret} (hs : s.Storable) {t : Time} (ht : t.InRange) : (stamp s t).Storable :=
  ⟨(textValid_stamp s t).trans hs.1, timesInRange_stamp hs.2 ht⟩

theorem timesWritable_stamp {s : Secret} (hs : s.metadata.TimesWritable) {t : Time} (ht : t.Writable) :
    (stamp s t).metadata.TimesWritable := by
  obtain ⟨hc, -, he⟩ := hs
  refine ⟨?_, ht, he⟩
  cases h : s.metadata.createdAt <;> simp_all [stamp, timeWritable]

theorem readable_stamp {s : Secret} (hs : s.Readable) {t : Time} (ht : t.Writable) : (stamp s t).Readable :=
  ⟨(textValid_stamp s t).trans hs.1, timesWritable_stamp hs.2 ht⟩

/-- `s.Set(ctx, path, secret)`. -/
def EncryptedStore.set (path : Bytes) (secret : Secret) : StoreM Unit := do
  let s ← getStore
  if s.isLockedUnsafe then fail "vault is locked"
  let secret := stamp secret (← now env)
  let some crypto := s.crypto | nilDereference
  let encrypted ← wrapErr (.ofString "failed to encrypt secret") (crypto.encryptString P env secret.marshal)
  let some data := s.data | nilDereference
  modifyStore fun s => { s with data := some ⟨data.secrets.insert path encrypted⟩, dirty := true }
  if s.autoSave then saveData env

/-- `s.Delete(ctx, path)`. -/
def EncryptedStore.delete (path : Bytes) : StoreM Unit := do
  let s ← getStore
  if s.isLockedUnsafe then fail "vault is locked"
  let some data := s.data | nilDereference
  modifyStore fun s => { s with data := some ⟨data.secrets.erase path⟩, dirty := true }
  if s.autoSave then saveData env

/-- `s.Exists(ctx, path)`. -/
def EncryptedStore.«exists» (path : Bytes) : StoreM Bool := do
  let s ← getStore
  if s.isLockedUnsafe then fail "vault is locked"
  let some data := s.data | nilDereference
  pure (data.secrets.lookup path).isSome

/-- `s.List(ctx, prefix)`. -/
def EncryptedStore.list (pre : Bytes) : StoreM (List Bytes) := do
  let s ← getStore
  if s.isLockedUnsafe then fail "vault is locked"
  let some data := s.data | nilDereference
  pure (Bytes.sortStrings (data.secrets.keys.filter fun path => pre.isEmpty || Bytes.hasPrefix path pre))

/-- `s.SecretCount()`. -/
def EncryptedStore.secretCount : StoreM Nat := do
  match (← getStore).data with
  | none => pure 0
  | some data => pure data.secrets.size

/-- The loop of `ChangePassword`: every secret decrypted under the old
session and encrypted under the new one, in the order the range visits them. -/
def reencrypt (old new : Crypto) : List (Bytes × Bytes) → GoMap Bytes → StoreM (GoMap Bytes)
  | [], acc => pure acc
  | (path, encrypted) :: rest, acc => do
    let decrypted ← onError (old.decryptString P encrypted) fun e => do
      let _ ← new.lock
      throw (.error (.wrap (.ofString "failed to decrypt secret " ++ path) e))
    let reEncrypted ← onError (new.encryptString P env decrypted) fun e => do
      let _ ← new.lock
      throw (.error (.wrap (.ofString "failed to re-encrypt secret " ++ path) e))
    reencrypt old new rest (acc.insert path reEncrypted)

/-- `s.ChangePassword(oldPassword, newPassword)`. -/
def EncryptedStore.changePassword (oldPassword newPassword : Bytes) : StoreM Unit := do
  let s ← getStore
  let some meta := s.meta | nilDereference
  let some crypto := s.crypto | nilDereference
  unless ← crypto.verifyPassword P oldPassword meta.verification do fail "invalid current password"
  let newCrypto ← wrapErr (.ofString "failed to create crypto") (newCrypto env none defaultArgon2Params)
  let newCrypto ← newCrypto.unlock P newPassword
  let verification ← onError (newCrypto.createVerificationBlob P env) fun e => do
    let _ ← newCrypto.lock
    throw (.error (.wrap (.ofString "failed to create verification") e))
  let some data := (← getStore).data | nilDereference
  let order := env.mapOrder (← nextCall) data.secrets.entries
  let newSecrets ← reencrypt P env crypto newCrypto order GoMap.empty
  modifyStore fun s => { s with
    meta := some { meta with salt := some newCrypto.salt, argon2Params := newCrypto.params, verification } }
  modifyStore fun s => { s with data := some ⟨newSecrets⟩ }
  let _ ← crypto.lock
  modifyStore fun s => { s with crypto := some newCrypto }
  wrapErr (.ofString "failed to save metadata") (saveMeta env)
  wrapErr (.ofString "failed to save data") (saveData env)

end

end OmniVault.Store
