import OmniVault.Store.Calls

/-!
`ChangePassword`: its loop over the secrets, and what the call leaves when
one of its two saves fails.

The loop decrypts each secret under the old session and encrypts it under
the new one, in the order the `range` visits the map. When every secret is
sealed under the old key and `crypto/rand` does not fail, it returns a map
with the same paths, each sealed under the new key.

The method then replaces the metadata, the secrets and the session in memory,
zeroes the old key, and only then saves the two files. A save that fails
returns its error with the new session in place, the old key gone and the
files as they were, which the code's own error paths before it avoid.
-/

namespace OmniVault.Store

open Vault Json

/-- `c` is a ciphertext `Encrypt` made under `key`. -/
def SealedUnder (P : Primitives) (key c : Bytes) : Prop :=
  ∃ nonce plaintext, nonce.length = gcmNonceSize ∧ c = sealedText P key nonce plaintext

section Loop

variable {P : Primitives} {env : Env} {w : World} {old new : Crypto} {kold knew : Nat}

/-- The loop of `ChangePassword`, over secrets all sealed under the old key. -/
theorem reencrypt_run (hP : P.Lawful) (ho : old.key = some kold) (hn : new.key = some knew)
    (hso : aesKeySizeOk (w.key kold)) (hsn : aesKeySizeOk (w.key knew)) (hrand : ∀ j, env.randFails j = false) :
    ∀ (l : List (Bytes × Bytes)) (acc : GoMap Bytes) (calls : Nat),
      (∀ e ∈ l, SealedUnder P (w.key kold) e.2) →
      ∃ acc', (reencrypt P env old new l acc).run { w with calls } = .ok acc' { w with calls := calls + l.length } ∧
        (∀ p, (acc'.lookup p).isSome = ((acc.lookup p).isSome || decide (p ∈ l.map Prod.fst))) ∧
        ∀ p c, acc'.lookup p = some c → acc.lookup p = some c ∨ SealedUnder P (w.key knew) c
  | [], acc, calls, _ => ⟨acc, rfl, by simp, fun _ _ h => .inl h⟩
  | (path, e) :: l, acc, calls, hl => by
    obtain ⟨nonce, pt, hnonce, rfl⟩ := hl (path, e) (List.mem_cons_self _ _)
    obtain ⟨acc', hrun, hkeys, hvals⟩ := reencrypt_run hP ho hn hso hsn hrand l
      (acc.insert path (sealedText P (w.key knew) (env.nonce calls) pt)) (calls + 1)
      (fun e' he' => hl e' (List.mem_cons_of_mem _ he'))
    refine ⟨acc', ?_, fun p => ?_, fun p c hc => ?_⟩
    · have hd := decrypt_sealedText (w := { w with calls }) hP ho hso hnonce pt
      have he := @encrypt_run P env new knew hn { w with calls } hsn (hrand calls) pt
      simp only [World.key_mk] at hd he
      simp only [reencrypt, run_bind, run_onError, Crypto.decryptString, Crypto.encryptString, hd, he, hrun,
        List.length_cons]
      congr 2
      omega
    · rw [hkeys, GoMap.lookup_insert]
      by_cases hp : p = path
      · simp [hp]
      · simp only [hp, if_false, List.map_cons, List.mem_cons, false_or]
    · rcases hvals p c hc with h | h
      · rw [GoMap.lookup_insert] at h
        split_ifs at h
        · exact .inr ⟨_, _, nonce_length env calls, (Option.some.inj h).symm⟩
        · exact .inl h
      · exact .inr h

end Loop

/-! ## The switch -/

/-- The key of the session `ChangePassword` opens at call `i` for `newPassword`. -/
def Env.changedKey (P : Primitives) (env : Env) (i : Nat) (newPassword : Bytes) : Bytes :=
  (env.initCrypto i).derivedKey P newPassword

/-- The world `ChangePassword` has built when it saves: the new salt,
parameters and verification blob in the metadata, the re-encrypted secrets,
the new session in the buffer after the one `VerifyPassword` used and zeroed,
and the old session's key zeroed. -/
def switchedWorld (P : Primitives) (env : Env) (w : World) (m : VaultMeta) (verified : Bytes) (k : Nat)
    (newPassword : Bytes) (secrets : GoMap Bytes) (n : Nat) : World :=
  { store := { w.store with
      meta := some { m with
        salt := some (env.salt w.calls)
        argon2Params := defaultArgon2Params
        verification := sealedText P (env.changedKey P w.calls newPassword) (env.nonce (w.calls + 1))
          verificationMagic }
      data := some ⟨secrets⟩
      crypto := some { env.initCrypto w.calls with key := some (w.keys.length + 1) } }
    disk := w.disk
    keys := (w.keys ++ [(⟨verified.map fun _ => 0, true⟩ : KeyBuffer),
      ⟨env.changedKey P w.calls newPassword, false⟩]).modify (fun b => ⟨b.bytes.map fun _ => 0, true⟩) k
    calls := w.calls + 3 + n }

section Switch

@[simp] theorem switchedWorld_calls (P : Primitives) (env : Env) (w : World) (m : VaultMeta)
    (verified : Bytes) (k : Nat) (newPassword : Bytes) (secrets : GoMap Bytes) (n : Nat) :
    (switchedWorld P env w m verified k newPassword secrets n).calls = w.calls + 3 + n := rfl

@[simp] theorem switchedWorld_disk (P : Primitives) (env : Env) (w : World) (m : VaultMeta)
    (verified : Bytes) (k : Nat) (newPassword : Bytes) (secrets : GoMap Bytes) (n : Nat) :
    (switchedWorld P env w m verified k newPassword secrets n).disk = w.disk := rfl

variable {P : Primitives} {env : Env} {w : World} {c : Crypto} {k : Nat} {d : VaultData} {m : VaultMeta}

/-- `ChangePassword` with the right password, on a vault whose secrets are all
sealed under the session's key, when `crypto/rand` does not fail: it switches
to the new session, and what is left is the two saves. -/
theorem changePassword_run_switch (hP : P.Lawful) (hsess : Session w c k d) (hk : k < w.keys.length)
    (hm : w.store.meta = some m) (hu : c.params.Usable) (hsize : aesKeySizeOk (w.key k))
    {oldPassword : Bytes} (hv : opensToMagic P (c.derivedKey P oldPassword) m.verification)
    (hsealed : ∀ e ∈ d.secrets.entries, SealedUnder P (w.key k) e.2) (hrand : ∀ j, env.randFails j = false)
    (newPassword : Bytes) :
    ∃ secrets, (∀ p, (secrets.lookup p).isSome = (d.secrets.lookup p).isSome) ∧
      (∀ p e, secrets.lookup p = some e → SealedUnder P (env.changedKey P w.calls newPassword) e) ∧
      (EncryptedStore.changePassword P env oldPassword newPassword).run w =
        (do wrapErr (.ofString "failed to save metadata") (saveMeta env)
            wrapErr (.ofString "failed to save data") (saveData env)).run
          (switchedWorld P env w m (c.derivedKey P oldPassword) k newPassword secrets d.secrets.size) := by
  -- the world the loop runs in
  let w₀ : World := { w with keys := w.keys ++ [⟨(c.derivedKey P oldPassword).map fun _ => 0, true⟩,
    ⟨env.changedKey P w.calls newPassword, false⟩] }
  have hk₀ : w₀.key k = w.key k := World.key_append_of_lt rfl hk
  have hnew : w₀.key (w.keys.length + 1) = env.changedKey P w.calls newPassword := by
    simp [w₀, World.key, List.getElem_append_right]
  have hsn : aesKeySizeOk (w₀.key (w.keys.length + 1)) := by
    simp [hnew, Env.changedKey, aesKeySizeOk, derivedKey_length hP, Env.initCrypto]
  have horder := env.mapOrder_perm (w.calls + 2) d.secrets.entries
  obtain ⟨secrets, hrun, hkeys, hvals⟩ :=
    @reencrypt_run _ env w₀ c { env.initCrypto w.calls with key := some (w.keys.length + 1) } _ _ hP hsess.key rfl
    (hk₀ ▸ hsize) hsn hrand (env.mapOrder (w.calls + 2) d.secrets.entries) GoMap.empty (w.calls + 3)
    (fun e he => hk₀ ▸ hsealed e (horder.mem_iff.mp he))
  refine ⟨secrets, fun p => ?_, fun p e he => ?_, ?_⟩
  · simp only [hkeys, GoMap.lookup_empty, Option.isSome_none, Bool.false_or]
    rw [Bool.eq_iff_iff, decide_eq_true_iff, ← GoMap.mem_keys]
    exact (horder.map Prod.fst).mem_iff
  · exact hnew ▸ (hvals p e he).resolve_left (by simp)
  · simp only [w₀, List.map_const', derivedKey_length hP, Env.changedKey, Env.initCrypto] at hrun
    simp [EncryptedStore.changePassword, hm, hsess.crypto, hsess.data, verifyPassword_run hu, hv,
      newCrypto_run_fresh (hrand _), unlock_run, defaultArgon2Params_usable, Crypto.createVerificationBlob,
      Crypto.encryptString, Crypto.encrypt, keyBytes_run, derivedKey_length hP, aesKeySizeOk, randRead_run, hrand,
      Nat.add_assoc, hrun, lock_run, hsess.key, switchedWorld, Env.changedKey, Env.initCrypto, Env.nonce,
      horder.length_eq, GoMap.size]

/-- `ChangePassword` is not all-or-nothing: when the metadata file cannot be
written, the call returns an error, the files are as they were, and yet the
store has moved to the new session and the old session's key is zeroed. -/
theorem changePassword_save_failure_keeps_switch (hP : P.Lawful) (hsess : Session w c k d)
    (hk : k < w.keys.length) (hm : w.store.meta = some m) (hu : c.params.Usable) (hsize : aesKeySizeOk (w.key k))
    {oldPassword : Bytes} (hv : opensToMagic P (c.derivedKey P oldPassword) m.verification)
    (hsealed : ∀ e ∈ d.secrets.entries, SealedUnder P (w.key k) e.2) (hrand : ∀ j, env.randFails j = false)
    (hmkdir : env.mkdirOk (w.calls + 3 + d.secrets.size) = true)
    (hopen : env.write (w.calls + 3 + d.secrets.size + 1) = .openFailed) (newPassword : Bytes) :
    ∃ e w', (EncryptedStore.changePassword P env oldPassword newPassword).run w =
        .error (.error (.wrap (.ofString "failed to save metadata") e)) w' ∧
      w'.disk = w.disk ∧ w'.store.crypto ≠ w.store.crypto ∧ (w'.keys.getD k ⟨[], true⟩).zeroed = true := by
  obtain ⟨secrets, -, -, hrun⟩ := changePassword_run_switch hP hsess hk hm hu hsize hv hsealed hrand newPassword
  have hne : w.store.crypto ≠ some { env.initCrypto w.calls with key := some (w.keys.length + 1) } := by
    rw [hsess.crypto]
    intro h
    have := congrArg Crypto.key (Option.some.inj h)
    simp only [hsess.key, Option.some.injEq] at this
    omega
  have hzero : ((switchedWorld P env w m (c.derivedKey P oldPassword) k newPassword secrets
      d.secrets.size).keys.getD k ⟨[], true⟩).zeroed = true := by
    simp [switchedWorld, List.getElem?_append_left hk, hk]
  rw [hrun]
  simp only [run_bind, wrapErr_run, saveMeta, mkdirAll_run, switchedWorld_calls, hmkdir, if_true,
    getStore_run]
  cases hj : metaJson (switchedWorld P env w m (c.derivedKey P oldPassword) k newPassword secrets
    d.secrets.size).store.meta with
  | error e =>
    simp only [hj, run_throw]
    exact ⟨e, _, rfl, rfl, hne.symm, hzero⟩
  | ok j =>
    simp only [hj, writeFile_run, hopen]
    exact ⟨_, _, rfl, rfl, hne.symm, hzero⟩

end Switch

/-- A store unlocked with the password "hunter2" over a vault of no secrets. -/
def unlockedSample : World :=
  let salt := List.replicate 32 7
  let key := (⟨defaultArgon2Params, salt, none⟩ : Crypto).derivedKey Primitives.standIn (.ofString "hunter2")
  { store := {
      crypto := some ⟨defaultArgon2Params, salt, some 0⟩
      meta := some ⟨1, Time.zero, some salt, defaultArgon2Params,
        sealedText Primitives.standIn key (List.replicate 12 0) verificationMagic⟩
      data := some ⟨GoMap.empty⟩ }
    keys := [⟨key, false⟩] }

/-- An operating system on which every write of a file fails to open it. -/
def Env.cannotOpen : Env := { Env.reliable Time.zero with write := fun _ => .openFailed }

theorem changePassword_save_failure_sample :
    ∃ e w', (EncryptedStore.changePassword Primitives.standIn Env.cannotOpen (.ofString "hunter2")
        (.ofString "correct horse")).run unlockedSample =
        .error (.error (.wrap (.ofString "failed to save metadata") e)) w' ∧
      w'.disk = unlockedSample.disk ∧ w'.store.crypto ≠ unlockedSample.store.crypto ∧
      (w'.keys.getD 0 ⟨[], true⟩).zeroed = true :=
  changePassword_save_failure_keeps_switch (m := ⟨1, Time.zero, some (List.replicate 32 7), defaultArgon2Params,
      sealedText Primitives.standIn ((⟨defaultArgon2Params, List.replicate 32 7, none⟩ : Crypto).derivedKey
        Primitives.standIn (.ofString "hunter2")) (List.replicate 12 0) verificationMagic⟩)
    Primitives.standIn_lawful ⟨rfl, rfl, rfl⟩ (by decide) rfl defaultArgon2Params_usable (by decide) (by decide)
    (by simp [GoMap.empty]) (fun _ => rfl) rfl rfl _

end OmniVault.Store
