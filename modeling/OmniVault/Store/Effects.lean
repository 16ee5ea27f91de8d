import OmniVault.Store.Files
import OmniVault.Store.ChangePassword

/-!
What a call that returns has done, read back from the fact that it returned.

`Unlock` returns only after reading the metadata file, opening its
verification blob with the derived key and reading the data file; the new
session's key sits in the buffer after the one `VerifyPassword` zeroed.
`Initialize` and `ChangePassword` build their new state in memory and then
save it, so each is its first part followed by the two saves. The loop of
`ChangePassword` returns only when every secret opened under the old
session, and then it holds each one sealed under the new session.
-/

namespace OmniVault.Store

open Vault Json

variable {P : Primitives} {env : Env} {w : World}

/-! ## Get -/

/-- `Get` of a path whose ciphertext the session decrypts. -/
theorem get_run_decrypted {c : Crypto} {k : Nat} {d : VaultData} (hsess : Session w c k d) {path e pt : Bytes}
    (hl : d.secrets.lookup path = some e) (hd : (c.decrypt P e).run w = .ok pt w) :
    (EncryptedStore.get P path).run w = match Secret.unmarshal pt with
      | some s => .ok s w
      | none => .error (.error (.wrap (.ofString "failed to unmarshal secret") jsonError)) w := by
  simp only [EncryptedStore.get, run_bind, getStore_run, hsess.unlocked, hsess.data, hsess.crypto, hl]
  simp [Crypto.decryptString, hd]
  cases Secret.unmarshal pt <;> rfl

theorem resultValue_get_decrypted {c : Crypto} {k : Nat} {d : VaultData} (hsess : Session w c k d)
    {path e pt : Bytes} (hl : d.secrets.lookup path = some e) (hd : (c.decrypt P e).run w = .ok pt w) :
    resultValue ((EncryptedStore.get P path).run w) = Secret.unmarshal pt := by
  rw [get_run_decrypted hsess hl hd]
  cases Secret.unmarshal pt <;> rfl

/-! ## Unlock and Lock -/

/-- Every `Unlock` that returns: the metadata file read, a session whose key
opens its verification blob, and the data file read. -/
theorem unlock_run_ok_inv {password : Bytes} {w' : World}
    (h : (EncryptedStore.unlock P env password).run w = .ok () w') :
    ∃ (m : VaultMeta) (c : Crypto), w.disk.metaView = some m ∧ c.params = m.argon2Params ∧ c.key = none ∧
      opensToMagic P (c.derivedKey P password) m.verification = true ∧
      ∃ d, w.disk.dataView = some d ∧ ∃ calls t, w' =
        { store := { w.store with
            meta := some m
            crypto := some { c with key := some (w.keys.length + 1) }
            unlockTime := t
            data := some d }
          disk := w.disk
          keys := w.keys ++ [⟨(c.derivedKey P password).map fun _ => 0, true⟩, ⟨c.derivedKey P password, false⟩]
          calls } := by
  rcases hf : w.disk.metaFile with _ | b
  · rw [unlock_run_noVault hf] at h; cases h
  cases hrd : env.readFails w.calls
  case true => rw [unlock_run_metaReadFails hf hrd] at h; cases h
  rcases hm : readMeta b with _ | m
  · simp [EncryptedStore.unlock, EncryptedStore.vaultExists, Disk.get, hf, loadMeta, readFile_run, hrd, hm] at h
  simp [EncryptedStore.unlock, EncryptedStore.vaultExists, Disk.get, hf, loadMeta_run_ok hf hrd hm] at h
  rcases @newCrypto_cases env m.salt m.argon2Params
      { w with calls := w.calls + 1, store := { w.store with meta := some m } } with ⟨e, calls, hc⟩ | ⟨salt, calls, hc⟩
  · simp [hc] at h
  simp only [hc] at h
  by_cases hu : m.argon2Params.Usable
  swap
  · obtain ⟨msg, hv⟩ := verifyPassword_run_unusable (P := P) (c := ⟨m.argon2Params, salt, none⟩) hu password
      m.verification { w with calls, store := { w.store with meta := some m } }
    simp [hv] at h
  simp only [verifyPassword_run (c := ⟨m.argon2Params, salt, none⟩) hu] at h
  cases hv : opensToMagic P ((⟨m.argon2Params, salt, none⟩ : Crypto).derivedKey P password) m.verification
  · simp [hv] at h
  simp only [hv, if_true, run_bind, unlock_run (c := ⟨m.argon2Params, salt, none⟩) hu, modifyStore_run,
    now_run, run_onError] at h
  split at h
  · obtain ⟨d, hd, rfl⟩ := loadData_run_ok_inv ‹_›
    cases h
    exact ⟨m, ⟨m.argon2Params, salt, none⟩, by simp [Disk.metaView, hf, hm], rfl, rfl, hv, d, hd, calls + 2,
      env.now calls, by simp⟩
  all_goals simp [lock_run] at h

/-! ## Initialize -/

/-- The world `Initialize` has built when it saves: the new metadata, an
empty vault and the new session in memory, and nothing yet on disk. -/
def initWorld (P : Primitives) (env : Env) (w : World) (password : Bytes) : World :=
  { store := { w.store with
      meta := some (initMeta P env password w.calls)
      data := some ⟨GoMap.empty⟩
      crypto := some { env.initCrypto w.calls with key := some w.keys.length }
      unlockTime := env.now (w.calls + 3) }
    disk := w.disk
    keys := w.keys ++ [⟨(env.initCrypto w.calls).derivedKey P password, false⟩]
    calls := w.calls + 4 }

/-- `Initialize` on a path with no vault, when `crypto/rand` gives the salt and
the nonce: what is left is the two saves. -/
theorem init_run_saves (hP : P.Lawful) (hnone : w.disk.metaFile = none) (hr : env.randFails w.calls = false)
    (hr' : env.randFails (w.calls + 1) = false) (password : Bytes) :
    (EncryptedStore.init P env password).run w =
      (do wrapErr (.ofString "failed to save metadata") (saveMeta env)
          wrapErr (.ofString "failed to save data") (saveData env)).run (initWorld P env w password) := by
  simp [EncryptedStore.init, EncryptedStore.vaultExists, Disk.get, hnone, newCrypto_run_fresh hr,
    unlock_run, defaultArgon2Params_usable, Crypto.createVerificationBlob, Crypto.encryptString,
    Crypto.encrypt, keyBytes_run, derivedKey_length hP, aesKeySizeOk, randRead_run, hr', Nat.add_assoc]
  rfl

/-! ## ChangePassword -/

/-- `Lock` then an error: the handlers of `ChangePassword`'s loop never return. -/
theorem lock_then_throw_value {c : Crypto} {f : Fault} (v : World) :
    resultValue ((do let _ ← c.lock; throw f : StoreM Bytes).run v) = none := by
  rcases hk : c.key with _ | k <;> simp [Crypto.lock, hk, zeroKey, resultValue]

/-- Every run of `ChangePassword`'s loop that returns: each secret opened
under the old session and sealed under the new one with a fresh nonce. -/
theorem reencrypt_run_ok {old new : Crypto} :
    ∀ (l : List (Bytes × Bytes)) (acc : GoMap Bytes) (w : World) {acc' : GoMap Bytes} {w' : World},
      (reencrypt P env old new l acc).run w = .ok acc' w' →
      w' = { w with calls := w.calls + l.length } ∧
      (∀ p, p ∉ l.map Prod.fst → acc'.lookup p = acc.lookup p) ∧
      ((l.map Prod.fst).Nodup → ∀ p e, (p, e) ∈ l → ∃ pt kold knew nonce, old.key = some kold ∧
        openText P (w.key kold) e = some pt ∧ new.key = some knew ∧ nonce.length = gcmNonceSize ∧
        acc'.lookup p = some (sealedText P (w.key knew) nonce pt))
  | [], acc, w, acc', w', h => by
    cases h
    exact ⟨rfl, fun _ _ => rfl, fun _ _ _ he => absurd he (List.not_mem_nil _)⟩
  | (path, e) :: rest, acc, w, acc', w', h => by
    obtain ⟨pt, w₁, hd, h⟩ := run_bind_ok h
    obtain ⟨ct, w₂, he, h⟩ := run_bind_ok h
    obtain ⟨rfl, kold, hkold, hopen⟩ :=
      decrypt_run_ok_inv (onError_run_ok (fun _ v => lock_then_throw_value v) hd)
    obtain ⟨knew, hknew, -, rfl, rfl⟩ :=
      encrypt_run_ok (onError_run_ok (fun _ v => lock_then_throw_value v) he)
    obtain ⟨rfl, hrest, hnew⟩ := reencrypt_run_ok rest _ _ h
    refine ⟨by simp only [List.length_cons]; congr 1; omega, fun p hp => ?_, fun hnd p e' hpe => ?_⟩
    · simp only [List.map_cons, List.mem_cons, not_or] at hp
      rw [hrest p hp.2, GoMap.lookup_insert_ne hp.1]
    · simp only [List.map_cons, List.nodup_cons] at hnd
      rcases List.mem_cons.mp hpe with heq | hmem
      · cases heq
        exact ⟨pt, kold, knew, _, hkold, hopen, hknew, nonce_length env _,
          by rw [hrest path hnd.1, GoMap.lookup_insert_self]⟩
      · exact hnew hnd.2 p e' hmem

/-- The new session's key, in the buffer after the one `VerifyPassword` used. -/
theorem switchedWorld_key_new {k : Nat} (hk : k < w.keys.length) (m : VaultMeta) (verified newPassword : Bytes)
    (secrets : GoMap Bytes) (n : Nat) :
    (switchedWorld P env w m verified k newPassword secrets n).key (w.keys.length + 1) =
      env.changedKey P w.calls newPassword := by
  simp [switchedWorld, World.key, List.getElem?_modify, Nat.ne_of_lt (Nat.lt_succ_of_lt hk), List.getElem_append_right]

section ChangePassword

variable {c : Crypto} {k : Nat} {d : VaultData} {oldPassword newPassword : Bytes}

/-- The world `ChangePassword`'s loop runs in: the buffer `VerifyPassword`
used, zeroed, and the new session's key after it. -/
def loopWorld (P : Primitives) (env : Env) (w : World) (c : Crypto) (oldPassword newPassword : Bytes) : World :=
  { w with
    calls := w.calls + 3
    keys := w.keys ++ [⟨(c.derivedKey P oldPassword).map fun _ => 0, true⟩, ⟨env.changedKey P w.calls newPassword, false⟩] }

/-- `ChangePassword` when the loop returns: what is left is the two saves. -/
theorem changePassword_run_eq (hP : P.Lawful) (hsess : Session w c k d) {m : VaultMeta} (hm : w.store.meta = some m)
    (hu : c.params.Usable) (hv : opensToMagic P (c.derivedKey P oldPassword) m.verification = true)
    (hr : env.randFails w.calls = false) (hr' : env.randFails (w.calls + 1) = false) {secrets : GoMap Bytes}
    {w₁ : World}
    (hre : (reencrypt P env c { env.initCrypto w.calls with key := some (w.keys.length + 1) }
      (env.mapOrder (w.calls + 2) d.secrets.entries) GoMap.empty).run (loopWorld P env w c oldPassword newPassword) =
        .ok secrets w₁) :
    (EncryptedStore.changePassword P env oldPassword newPassword).run w =
      (do wrapErr (.ofString "failed to save metadata") (saveMeta env)
          wrapErr (.ofString "failed to save data") (saveData env)).run
        (switchedWorld P env w m (c.derivedKey P oldPassword) k newPassword secrets d.secrets.size) := by
  obtain ⟨rfl, -, -⟩ := reencrypt_run_ok _ _ _ hre
  have hfresh (v : World) (hv : v.calls = w.calls) := @newCrypto_run_fresh env v (hv ▸ hr) defaultArgon2Params
  simp only [loopWorld, List.map_const', derivedKey_length hP, Env.changedKey, Env.initCrypto] at hre
  simp [EncryptedStore.changePassword, hm, hsess.crypto, hsess.data, verifyPassword_run hu, hv,
    hfresh, unlock_run, defaultArgon2Params_usable, Crypto.createVerificationBlob,
    Crypto.encryptString, Crypto.encrypt, keyBytes_run, derivedKey_length hP, aesKeySizeOk, randRead_run, hr',
    Nat.add_assoc, hre, lock_run, hsess.key, switchedWorld, loopWorld, Env.changedKey, Env.initCrypto, Env.nonce,
    (env.mapOrder_perm _ _).length_eq, GoMap.size]

/-- Every `ChangePassword` on an unlocked store that returns: the old password
opened the verification blob in memory, `crypto/rand` gave the nonce, the
loop returned, and so did both saves. -/
theorem changePassword_run_ok_inv (hP : P.Lawful) (hsess : Session w c k d) {w' : World}
    (h : (EncryptedStore.changePassword P env oldPassword newPassword).run w = .ok () w') :
    ∃ m secrets w₁, w.store.meta = some m ∧ c.params.Usable ∧
      opensToMagic P (c.derivedKey P oldPassword) m.verification = true ∧ env.randFails (w.calls + 1) = false ∧
      (reencrypt P env c { env.initCrypto w.calls with key := some (w.keys.length + 1) }
        (env.mapOrder (w.calls + 2) d.secrets.entries) GoMap.empty).run (loopWorld P env w c oldPassword newPassword) =
        .ok secrets w₁ ∧
      (do wrapErr (.ofString "failed to save metadata") (saveMeta env)
          wrapErr (.ofString "failed to save data") (saveData env)).run
        (switchedWorld P env w m (c.derivedKey P oldPassword) k newPassword secrets d.secrets.size) = .ok () w' := by
  rcases hm : w.store.meta with _ | m
  · simp [EncryptedStore.changePassword, hm] at h
  by_cases hu : c.params.Usable
  swap
  · obtain ⟨msg, hvp⟩ := verifyPassword_run_unusable (P := P) hu oldPassword m.verification w
    simp [EncryptedStore.changePassword, hm, hsess.crypto, hvp] at h
  cases hv : opensToMagic P (c.derivedKey P oldPassword) m.verification
  · simp [EncryptedStore.changePassword, hm, hsess.crypto, verifyPassword_run hu, hv] at h
  cases hr : env.randFails w.calls
  swap
  · have hfail (v : World) (hv : v.calls = w.calls) := @newCrypto_run_randFails env v (hv ▸ hr) defaultArgon2Params
    simp [EncryptedStore.changePassword, hm, hsess.crypto, verifyPassword_run hu, hv, hfail] at h
  cases hr' : env.randFails (w.calls + 1)
  swap
  · have hfresh (v : World) (hv : v.calls = w.calls) := @newCrypto_run_fresh env v (hv ▸ hr) defaultArgon2Params
    simp [EncryptedStore.changePassword, hm, hsess.crypto, verifyPassword_run hu, hv, hfresh, unlock_run,
      defaultArgon2Params_usable, Crypto.createVerificationBlob, Crypto.encryptString, Crypto.encrypt, keyBytes_run,
      derivedKey_length hP, aesKeySizeOk, randRead_run, hr', lock_run] at h
  rcases hre : (reencrypt P env c { env.initCrypto w.calls with key := some (w.keys.length + 1) }
      (env.mapOrder (w.calls + 2) d.secrets.entries) GoMap.empty).run (loopWorld P env w c oldPassword newPassword)
    with ⟨secrets, w₁⟩ | ⟨f, w₁⟩
  · exact ⟨m, secrets, w₁, rfl, hu, hv, rfl, rfl, by rwa [changePassword_run_eq hP hsess hm hu hv hr hr' hre] at h⟩
  · have hfresh (v : World) (hv : v.calls = w.calls) := @newCrypto_run_fresh env v (hv ▸ hr) defaultArgon2Params
    simp only [loopWorld, List.map_const', derivedKey_length hP, Env.changedKey, Env.initCrypto] at hre
    simp [EncryptedStore.changePassword, hm, hsess.crypto, hsess.data, verifyPassword_run hu, hv, hfresh, unlock_run,
      defaultArgon2Params_usable, Crypto.createVerificationBlob, Crypto.encryptString, Crypto.encrypt, keyBytes_run,
      derivedKey_length hP, aesKeySizeOk, randRead_run, hr', Nat.add_assoc, hre, Env.initCrypto] at h

end ChangePassword

end OmniVault.Store
