import OmniVault.Store.Effects

/-!
What `EncryptedStore`'s sessions and calls guarantee, and where they fall short.

`ChangePassword` moves every secret to the new key: the secrets read back as
before and only the new password opens the vault. The key buffers are not
kept as tight: `Unlock` on an unlocked store opens a new session without
zeroing the old key. `Initialize` opens its session before it saves, so a
save that fails leaves the store unlocked over a vault that is not on disk;
and `ChangePassword` on a store with no session panics. A ciphertext is not
bound to its path, so `Get` returns whatever secret sits at the path.
-/

namespace OmniVault.Store

open Vault Json

variable {P : Primitives} {env : Env} {w : World}

/-! ## ChangePassword -/

/-- `ChangePassword` re-encrypts every secret. When it returns on an unlocked
store, the store holds a session of the new key over a vault with the same
paths. The metadata in memory and in its file carries that session's salt
and its parameters, the default ones, so an `Unlock` that reads the file
derives the session's key. Each new ciphertext opens under the new session to
what the old ciphertext opened to under the old one, so `Get` answers as
before. The new password opens the new verification blob, and the old one
does not when the two derive different keys under the new salt and the cipher
commits to its key. -/
theorem changePassword_reencrypts (hP : P.Lawful) {c : Crypto} {k : Nat} {d : VaultData} (hsess : Session w c k d)
    (hk : k < w.keys.length) {oldPassword newPassword : Bytes} {w' : World}
    (h : (EncryptedStore.changePassword P env oldPassword newPassword).run w = .ok () w') :
    ∃ c' k' d' m', Session w' c' k' d' ∧ w'.store.meta = some m' ∧
      m'.salt = some c'.salt ∧ m'.argon2Params = c'.params ∧ c'.params = defaultArgon2Params ∧
      (∃ j, metaJson (some m') = .ok j ∧ w'.disk.metaFile = some (encodeIndent j)) ∧
      (∀ p, (d'.secrets.lookup p).isSome = (d.secrets.lookup p).isSome) ∧
      (∀ p e, d.secrets.lookup p = some e → ∃ pt e', (c.decrypt P e).run w = .ok pt w ∧
        d'.secrets.lookup p = some e' ∧ (c'.decrypt P e').run w' = .ok pt w') ∧
      (∀ p, resultValue ((EncryptedStore.get P p).run w') = resultValue ((EncryptedStore.get P p).run w)) ∧
      (∀ v, resultValue ((c'.verifyPassword P newPassword m'.verification).run v) = some true) ∧
      (P.KeyBound → c'.derivedKey P oldPassword ≠ c'.derivedKey P newPassword →
        ∀ v, resultValue ((c'.verifyPassword P oldPassword m'.verification).run v) = some false) := by
  obtain ⟨m, secrets, w₁, -, -, -, -, hre, hsaves⟩ := changePassword_run_ok_inv hP hsess h
  obtain ⟨j, hj, rfl⟩ := saves_run_ok hsaves
  obtain ⟨-, hout, hin⟩ := reencrypt_run_ok _ _ _ hre
  have horder := env.mapOrder_perm (w.calls + 2) d.secrets.entries
  have hnd := (horder.map Prod.fst).nodup_iff.mpr (GoMap.keys_nodup d.secrets)
  have hsize : aesKeySizeOk (env.changedKey P w.calls newPassword) := by
    simp [Env.changedKey, aesKeySizeOk, derivedKey_length hP, Env.initCrypto]
  -- each secret, opened under the old key and sealed under the new one
  have hpath (p e : Bytes) (hl : d.secrets.lookup p = some e) : ∃ pt nonce, openText P (w.key k) e = some pt ∧
      nonce.length = gcmNonceSize ∧ secrets.lookup p = some (sealedText P (env.changedKey P w.calls newPassword) nonce pt) := by
    obtain ⟨pt, kold, knew, nonce, hkold, hopen, hknew, hn, hlook⟩ :=
      hin hnd p e (horder.mem_iff.mpr (GoMap.mem_of_find hl))
    rw [hsess.key] at hkold
    cases hkold
    cases hknew
    refine ⟨pt, nonce, ?_, hn, ?_⟩
    · rwa [loopWorld, World.key_append_of_lt rfl hk] at hopen
    · simpa [loopWorld, World.key, List.getElem_append_right] using hlook
  have hK2 : ({ env.initCrypto w.calls with key := some (w.keys.length + 1) } : Crypto).derivedKey P newPassword =
      env.changedKey P w.calls newPassword := rfl
  have hsame (p : Bytes) : (secrets.lookup p).isSome = (d.secrets.lookup p).isSome := by
    rcases hl : d.secrets.lookup p with _ | e
    · have hp : p ∉ (env.mapOrder (w.calls + 2) d.secrets.entries).map Prod.fst := fun hp => by
        have := (horder.map Prod.fst).mem_iff.mp hp
        rw [← GoMap.keys, GoMap.mem_keys, hl] at this
        cases this
      rw [hout p hp]
      rfl
    · obtain ⟨pt, nonce, -, -, hlook⟩ := hpath p e hl
      simp [hlook]
  refine ⟨_, w.keys.length + 1, ⟨secrets⟩, _, ⟨rfl, rfl, rfl⟩, rfl, rfl, rfl, rfl, ⟨j, hj, rfl⟩, hsame,
    fun p e hl => ?_, fun p => ?_, fun v => ?_, fun hb hne v => ?_⟩
  · obtain ⟨pt, nonce, hopen, hn, hlook⟩ := hpath p e hl
    refine ⟨pt, _, (decrypt_run_ok_iff hsess.key e pt w).mpr hopen, hlook, (decrypt_run_ok_iff rfl _ pt _).mpr ?_⟩
    rw [World.key_mk, switchedWorld_key_new hk]
    exact openText_sealedText hP hsize hn pt
  · rcases hl : d.secrets.lookup p with _ | e
    · have hnone : secrets.lookup p = none := by
        rw [← Option.not_isSome_iff_eq_none, hsame p, hl]
        simp
      rw [get_run_missing hsess hl, get_run_missing ⟨rfl, rfl, rfl⟩ hnone]
      rfl
    · obtain ⟨pt, nonce, hopen, hn, hlook⟩ := hpath p e hl
      rw [resultValue_get_decrypted hsess hl ((decrypt_run_ok_iff hsess.key e pt w).mpr hopen),
        resultValue_get_decrypted ⟨rfl, rfl, rfl⟩ hlook ((decrypt_run_ok_iff rfl _ pt _).mpr ?_)]
      rw [World.key_mk, switchedWorld_key_new hk]
      exact openText_sealedText hP hsize hn pt
  · rw [verifyPassword_run defaultArgon2Params_usable]
    simp [resultValue, opensToMagic_eq_openText, hK2, openText_sealedText hP hsize (nonce_length env _)]
  · rw [verifyPassword_run defaultArgon2Params_usable]
    simp [resultValue, opensToMagic_eq_openText,
      openText_sealedText_ne hb (hK2 ▸ Ne.symm hne) (nonce_length env _)]

/-- A store unlocked with the password "hunter2" over a vault of no secrets,
under primitives whose keys for two passwords differ. -/
def passwordFirstSample : World :=
  let salt := List.replicate 32 7
  let key := (⟨defaultArgon2Params, salt, none⟩ : Crypto).derivedKey Primitives.passwordFirst (.ofString "hunter2")
  { store := {
      crypto := some ⟨defaultArgon2Params, salt, some 0⟩
      meta := some ⟨1, Time.zero, some salt, defaultArgon2Params,
        sealedText Primitives.passwordFirst key (List.replicate 12 0) verificationMagic⟩
      data := some ⟨GoMap.empty⟩ }
    keys := [⟨key, false⟩] }

/-- Under `passwordFirst` a key starts with its password, so "hunter2" and
"correct horse" derive different keys under every salt. -/
theorem passwordFirst_derivedKey_ne (c : Crypto) (hc : c.params = defaultArgon2Params) :
    c.derivedKey Primitives.passwordFirst (.ofString "hunter2") ≠
      c.derivedKey Primitives.passwordFirst (.ofString "correct horse") := by
  intro h
  have hhead := congrArg List.head? h
  rw [show Bytes.ofString "hunter2" = 0x68 :: Bytes.ofString "unter2" by decide,
    show Bytes.ofString "correct horse" = 0x63 :: Bytes.ofString "orrect horse" by decide] at hhead
  simp [Crypto.derivedKey, hc, defaultArgon2Params, Primitives.passwordFirst] at hhead

set_option maxRecDepth 100000 in
/-- A secret set under "hunter2", then the password changed to "correct
horse", with a cipher that commits to its key: the old password is refused. -/
theorem changePassword_reencrypts_sample :
    let P := Primitives.passwordFirst
    let env := Env.reliable Time.zero
    let w := resultWorld ((EncryptedStore.set P env (.ofString "db/password") { value := .ofString "s3cret" }).run
      passwordFirstSample)
    let w' := resultWorld ((EncryptedStore.changePassword P env (.ofString "hunter2") (.ofString "correct horse")).run w)
    let c : Crypto := ⟨defaultArgon2Params, List.replicate 32 7, some 0⟩
    let d := w.store.data.getD ⟨GoMap.empty⟩
    P.KeyBound ∧
    (∀ c' : Crypto, c'.params = defaultArgon2Params →
      c'.derivedKey P (.ofString "hunter2") ≠ c'.derivedKey P (.ofString "correct horse")) ∧
    ∃ c' k' d' m', Session w' c' k' d' ∧ w'.store.meta = some m' ∧
      m'.salt = some c'.salt ∧ m'.argon2Params = c'.params ∧ c'.params = defaultArgon2Params ∧
      (∃ j, metaJson (some m') = .ok j ∧ w'.disk.metaFile = some (encodeIndent j)) ∧
      (∀ p, (d'.secrets.lookup p).isSome = (d.secrets.lookup p).isSome) ∧
      (∀ p e, d.secrets.lookup p = some e → ∃ pt e', (c.decrypt P e).run w = .ok pt w ∧
        d'.secrets.lookup p = some e' ∧ (c'.decrypt P e').run w' = .ok pt w') ∧
      (∀ p, resultValue ((EncryptedStore.get P p).run w') = resultValue ((EncryptedStore.get P p).run w)) ∧
      (∀ v, resultValue ((c'.verifyPassword P (.ofString "correct horse") m'.verification).run v) = some true) ∧
      (P.KeyBound → c'.derivedKey P (.ofString "hunter2") ≠ c'.derivedKey P (.ofString "correct horse") →
        ∀ v, resultValue ((c'.verifyPassword P (.ofString "hunter2") m'.verification).run v) = some false) :=
  ⟨Primitives.passwordFirst_keyBound, passwordFirst_derivedKey_ne,
    @changePassword_reencrypts Primitives.passwordFirst (Env.reliable Time.zero) _ Primitives.passwordFirst_lawful
      ⟨defaultArgon2Params, List.replicate 32 7, some 0⟩ 0 _ ⟨rfl, rfl, rfl⟩ (by decide) _ _ _
      (eq_ok_of_resultValue rfl)⟩

/-! ## Sessions and keys -/

/-- `Unlock` on a store that is already unlocked opens a new session without
calling `Lock` on the old one: the old session's key stays in its buffer,
not zeroed, and is no longer the session's. -/
theorem unlock_leaves_old_key_unzeroed {c : Crypto} {k : Nat} (hc : w.store.crypto = some c) (hk : c.key = some k)
    (hlt : k < w.keys.length) (hz : (w.keys.getD k ⟨[], true⟩).zeroed = false) {password : Bytes} {w' : World}
    (h : (EncryptedStore.unlock P env password).run w = .ok () w') :
    ∃ c', w'.store.crypto = some c' ∧ w'.store.crypto ≠ w.store.crypto ∧
      w'.keys.getD k ⟨[], true⟩ = w.keys.getD k ⟨[], true⟩ ∧ (w'.keys.getD k ⟨[], true⟩).zeroed = false := by
  obtain ⟨m, c', -, -, -, -, d, -, calls, t, rfl⟩ := unlock_run_ok_inv h
  have hget : (w.keys ++ [(⟨(c'.derivedKey P password).map fun _ => 0, true⟩ : KeyBuffer),
      ⟨c'.derivedKey P password, false⟩]).getD
      k ⟨[], true⟩ = w.keys.getD k ⟨[], true⟩ := by
    simp [List.getElem?_append_left hlt]
  refine ⟨_, rfl, ?_, hget, hget ▸ hz⟩
  rw [hc]
  intro heq
  have := congrArg Crypto.key (Option.some.inj heq)
  simp only [hk, Option.some.injEq] at this
  omega

set_option maxRecDepth 100000 in
/-- A vault made with "hunter2" and unlocked again with it: the first
session's key is left as it was. -/
theorem unlock_twice_sample :
    let env := Env.reliable Time.zero
    let w := resultWorld ((EncryptedStore.init Primitives.standIn env (.ofString "hunter2")).run {})
    let w' := resultWorld ((EncryptedStore.unlock Primitives.standIn env (.ofString "hunter2")).run w)
    ∃ c', w'.store.crypto = some c' ∧ w'.store.crypto ≠ w.store.crypto ∧
      w'.keys.getD 0 ⟨[], true⟩ = w.keys.getD 0 ⟨[], true⟩ ∧ (w'.keys.getD 0 ⟨[], true⟩).zeroed = false :=
  @unlock_leaves_old_key_unzeroed Primitives.standIn (Env.reliable Time.zero) _
    ⟨defaultArgon2Params, (Env.reliable Time.zero).salt 0, some 0⟩ 0 (by decide) rfl (by decide) (by decide)
    (.ofString "hunter2") _ (eq_ok_of_resultValue (by decide))

/-! ## Initialize -/

/-- `Initialize` is not atomic: it opens the new session before it saves,
so when a save fails it returns the error with the store unlocked under the
new key, holding the new metadata and an empty vault. -/
theorem init_save_failure_leaves_unlocked (hP : P.Lawful) (hnone : w.disk.metaFile = none)
    (hr : env.randFails w.calls = false) (hr' : env.randFails (w.calls + 1) = false) (password : Bytes)
    {f : Fault} {w' : World} (h : (EncryptedStore.init P env password).run w = .error f w') :
    w'.store = (initWorld P env w password).store ∧ w'.store.isLockedUnsafe = false := by
  have hstore : w'.store = (initWorld P env w password).store := by
    rw [init_run_saves hP hnone hr hr'] at h
    rcases run_bind_error h with h | ⟨_, w₁, h₁, h⟩
    · obtain ⟨e, h⟩ := wrapErr_run_error h
      exact saveMeta_run_store h
    · obtain ⟨e, h⟩ := wrapErr_run_error h
      exact (saveData_error_store h).trans (saveMeta_run_store (wrapErr_run_ok h₁))
  refine ⟨hstore, ?_⟩
  simp [hstore, initWorld, EncryptedStore.isLockedUnsafe, Crypto.isUnlocked]

set_option maxRecDepth 100000 in
/-- A vault made on an operating system that opens no file for writing: the
metadata cannot be saved, and the store is left unlocked. -/
theorem init_save_failure_sample :
    let w := resultWorld ((EncryptedStore.init Primitives.standIn Env.cannotOpen (.ofString "hunter2")).run {})
    w.store = (initWorld Primitives.standIn Env.cannotOpen {} (.ofString "hunter2")).store ∧
      w.store.isLockedUnsafe = false :=
  init_save_failure_leaves_unlocked Primitives.standIn_lawful rfl rfl rfl _
    (f := .error (.wrap (.ofString "failed to save metadata") (.os (.ofString "open") false)))
    (eq_error_of_resultFault (by decide))

/-! ## Sessions that are not there -/

/-- `ChangePassword` reads the metadata and the session through pointers it
never checks: on a store with no session, as a new store and one after
`Lock` are, it panics. -/
theorem changePassword_run_noSession (h : w.store.crypto = none) (oldPassword newPassword : Bytes) :
    (EncryptedStore.changePassword P env oldPassword newPassword).run w =
      .error (.panic (.ofString "runtime error: invalid memory address or nil pointer dereference")) w := by
  rcases hm : w.store.meta with _ | m <;> simp [EncryptedStore.changePassword, hm, h]

set_option maxRecDepth 100000 in
/-- A vault made with "hunter2" and locked: `ChangePassword` panics. -/
theorem changePassword_after_lock_sample :
    let env := Env.reliable Time.zero
    let w := resultWorld ((EncryptedStore.lock env).run
      (resultWorld ((EncryptedStore.init Primitives.standIn env (.ofString "hunter2")).run {})))
    w.store.crypto = none ∧
      (EncryptedStore.changePassword Primitives.standIn env (.ofString "hunter2") (.ofString "correct horse")).run w =
        .error (.panic (.ofString "runtime error: invalid memory address or nil pointer dereference")) w :=
  ⟨by decide, changePassword_run_noSession (by decide) _ _⟩

/-! ## Replayed ciphertexts -/

/-- A ciphertext is not bound to its path or to its version: `Get` of a path
that holds any ciphertext `Set` made under the session's key returns the
secret that `Set` stored, whichever path it was set at. -/
theorem get_replayed_ciphertext (hP : P.Lawful) {c : Crypto} {k : Nat} {d : VaultData} (hsess : Session w c k d)
    (hsize : aesKeySizeOk (w.key k)) {i : Nat} {s : Secret} (hs : s.Storable) (ht : (env.now i).InRange)
    {path : Bytes} (hl : d.secrets.lookup path = some (setCiphertext P env (w.key k) i s)) :
    (EncryptedStore.get P path).run w = .ok (stamp s (env.now i)).normalize w := by
  rw [get_run_sealed hsess hP hsize (nonce_length env (i + 1)) hl,
    Secret.unmarshal_marshal (storable_stamp hs ht).1 (storable_stamp hs ht).2]

/-- The secret of "api/key" in the samples. -/
def apiSecret : Secret := { value := .ofString "tok-9f2c" }

/-- The sample store, its data file edited to hold at "db/password" the
ciphertext `Set` made for "api/key", and unlocked again. -/
def replayedSample : World :=
  { unlockedSample with
    store := { unlockedSample.store with
      data := some ⟨GoMap.empty.insert (.ofString "db/password")
        (setCiphertext Primitives.standIn (Env.reliable Time.zero) (unlockedSample.key 0) 0 apiSecret)⟩ } }

set_option maxRecDepth 100000 in
/-- `Set` of "api/key" stores the ciphertext that, put at "db/password",
makes `Get` of "db/password" return the secret of "api/key". -/
theorem get_replayed_sample :
    let P := Primitives.standIn
    let env := Env.reliable Time.zero
    ((resultWorld ((EncryptedStore.set P env (.ofString "api/key") apiSecret).run unlockedSample)).store.data.bind
        (·.secrets.lookup (.ofString "api/key"))) =
      some (setCiphertext P env (unlockedSample.key 0) 0 apiSecret) ∧
    (EncryptedStore.get P (.ofString "db/password")).run replayedSample =
      .ok (stamp apiSecret (env.now 0)).normalize replayedSample :=
  ⟨by decide, @get_replayed_ciphertext Primitives.standIn (Env.reliable Time.zero) replayedSample
    Primitives.standIn_lawful ⟨defaultArgon2Params, List.replicate 32 7, some 0⟩ 0 _ ⟨rfl, rfl, rfl⟩ (by decide) 0
    apiSecret (by decide) Time.zero_inRange (.ofString "db/password") (GoMap.lookup_insert_self _ _ _)⟩

/-! ## Parameters Argon2 refuses -/

/-- `NewCrypto` checks the salt and never the Argon2 parameters: a metadata
file that parses, with a salt `NewCrypto` accepts and a time or a thread
count below 1, makes `Unlock` panic inside `argon2.IDKey`, whatever the
password. -/
theorem unlock_panics_on_unusable_params {b : Bytes} {m : VaultMeta} (hf : w.disk.metaFile = some b)
    (hr : env.readFails w.calls = false) (hm : readMeta b = some m)
    (hsalt : ∀ salt, m.salt = some salt → 16 ≤ salt.length) (hrand : env.randFails (w.calls + 1) = false)
    (hu : ¬ m.argon2Params.Usable) (password : Bytes) :
    ∃ msg w', (EncryptedStore.unlock P env password).run w = .error (.panic msg) w' := by
  let w₁ : World := { w with calls := w.calls + 1, store := { w.store with meta := some m } }
  obtain ⟨salt, calls, hc⟩ : ∃ salt calls,
      (newCrypto env m.salt m.argon2Params).run w₁ = .ok ⟨m.argon2Params, salt, none⟩ { w₁ with calls } := by
    rcases hs : m.salt with _ | salt
    · exact ⟨_, _, newCrypto_run_fresh hrand _⟩
    · exact ⟨salt, w₁.calls, newCrypto_run_salt (hsalt salt hs) _ _⟩
  obtain ⟨msg, hv⟩ := verifyPassword_run_unusable (P := P) (c := ⟨m.argon2Params, salt, none⟩) hu password
    m.verification { w₁ with calls }
  exact ⟨msg, { w₁ with calls }, by
    simp [EncryptedStore.unlock, EncryptedStore.vaultExists, Disk.get, hf, loadMeta_run_ok hf hr hm, w₁, hc, hv]⟩

/-- The metadata of a vault made with "hunter22", its time parameter set to 0. -/
def zeroTimeMeta : VaultMeta :=
  { initMeta Primitives.standIn (Env.reliable Time.zero) (.ofString "hunter22") 0 with
    argon2Params := { defaultArgon2Params with time := 0 } }

/-- A store whose metadata file holds `zeroTimeMeta`, as `saveMeta` writes it. -/
def zeroTimeSample : World :=
  { disk := { metaFile := some (encodeIndent (zeroTimeMeta.toJson (.string (Time.formatNano zeroTimeMeta.createdAt))))
              vaultFile := none } }

set_option maxRecDepth 100000 in
/-- `Unlock` of the tampered file panics with `argon2`'s message. -/
theorem unlock_panics_on_zero_time :
    resultFault ((EncryptedStore.unlock Primitives.standIn (Env.reliable Time.zero) (.ofString "hunter22")).run
        zeroTimeSample) = some (.panic (.ofString "argon2: number of rounds too small")) ∧
      ∃ msg w', (EncryptedStore.unlock Primitives.standIn (Env.reliable Time.zero) (.ofString "hunter22")).run
        zeroTimeSample = .error (.panic msg) w' :=
  ⟨by decide, unlock_panics_on_unusable_params (m := zeroTimeMeta) rfl rfl (by decide)
    (fun _ h => by simp [zeroTimeMeta, initMeta] at h; simp [← h, salt_length]) rfl
    (by simp [Argon2Params.Usable, zeroTimeMeta]) _⟩

end OmniVault.Store
