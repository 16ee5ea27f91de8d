import OmniVault.Store.Reachable

/-!
What the files and the session say about each other after a failed
`ChangePassword`.

`ChangePassword` switches the session, the metadata and the secrets in
memory, then saves the metadata file and the data file one after the other,
and never sets `dirty`. When the first save fails, memory holds secrets
sealed under the new key, the data file those sealed under the old one, and
nothing marks the difference: a later `Lock` saves nothing. When only the
second fails, the metadata file names the new key and the data file still
holds the old ciphertexts.

With a cipher that commits to its key, a ciphertext is sealed under one key
only, so such files have no key that opens them all.
-/

namespace OmniVault.Store

open Vault Json

/-- The files agree on `key`: it opens the metadata file's verification
blob to the magic, and every ciphertext of the data file as `loadData` reads
it. -/
def FilesOpenUnder (P : Primitives) (disk : Disk) (key : Bytes) : Prop :=
  (∃ m, disk.metaView = some m ∧ opensToMagic P key m.verification = true) ∧
    ∀ v, disk.dataView = some v → ∀ e ∈ v.secrets.entries, (openText P key e.2).isSome

/-- An operating system on which every call succeeds but the `i`-th, a
write that cannot open its file. -/
def Env.writeFailsAt (i : Nat) : Env :=
  { Env.reliable Time.zero with write := fun j => if j = i then .openFailed else .ok }

section Keys

variable {P : Primitives}

/-- Only the key that sealed the verification blob opens it. -/
theorem eq_of_opensToMagic_sealed (hb : P.KeyBound) {K key nonce : Bytes} (hn : nonce.length = gcmNonceSize)
    (h : opensToMagic P K (sealedText P key nonce verificationMagic) = true) : K = key := by
  by_contra hne
  rw [opensToMagic_eq_openText, openText_sealedText_ne hb (Ne.symm hne) hn] at h
  cases h

/-- A ciphertext is sealed under one key of a size AES takes, at most. -/
theorem SealedUnder.key_unique (hP : P.Lawful) (hb : P.KeyBound) {key key' c : Bytes} (hsize : aesKeySizeOk key)
    (h : SealedUnder P key c) (h' : SealedUnder P key' c) : key' = key := by
  obtain ⟨nonce, pt, hn, rfl⟩ := h
  obtain ⟨nonce', pt', hn', hc⟩ := h'
  by_contra hne
  have hopen := openText_sealedText hP hsize hn pt
  rw [hc, openText_sealedText_ne hb hne hn'] at hopen
  cases hopen

/-- Files whose verification blob and one ciphertext were sealed under two
different keys: no key opens them all. -/
theorem not_filesOpenUnder (hb : P.KeyBound) {disk : Disk} {k₁ k₂ n₁ n₂ pt path : Bytes} (hne : k₁ ≠ k₂)
    (hn₁ : n₁.length = gcmNonceSize) (hn₂ : n₂.length = gcmNonceSize)
    (hmeta : disk.metaView.map (·.verification) = some (sealedText P k₁ n₁ verificationMagic))
    (hdata : disk.dataView.bind (·.secrets.lookup path) = some (sealedText P k₂ n₂ pt)) :
    ¬ ∃ K, FilesOpenUnder P disk K := by
  rintro ⟨K, ⟨m, hm, hK⟩, hall⟩
  rw [hm, Option.map_some'] at hmeta
  rw [Option.some.inj hmeta] at hK
  obtain ⟨v, hv, hl⟩ := Option.bind_eq_some.mp hdata
  have := hall v hv _ (GoMap.mem_of_find (by rw [← GoMap.lookup_eq_find]; exact hl))
  rw [eq_of_opensToMagic_sealed hb hn₁ hK, openText_sealedText_ne hb (Ne.symm hne) hn₂] at this
  cases this

end Keys

section Saves

variable {P : Primitives} {env : Env} {w : World} {c : Crypto} {k : Nat} {d : VaultData} {m : VaultMeta}

/-- `ChangePassword` whose metadata file cannot be opened: the error of the
metadata save, with the switched world and the files as they were. -/
theorem changePassword_run_metaOpenFails (hP : P.Lawful) (hsess : Session w c k d) (hk : k < w.keys.length)
    (hm : w.store.meta = some m) (hu : c.params.Usable) (hsize : aesKeySizeOk (w.key k))
    {oldPassword : Bytes} (hv : opensToMagic P (c.derivedKey P oldPassword) m.verification)
    (hsealed : ∀ e ∈ d.secrets.entries, SealedUnder P (w.key k) e.2) (hrand : ∀ j, env.randFails j = false)
    (hmkdir : env.mkdirOk (w.calls + 3 + d.secrets.size) = true)
    (hopen : env.write (w.calls + 3 + d.secrets.size + 1) = .openFailed) (newPassword : Bytes) :
    ∃ secrets, (∀ p, (secrets.lookup p).isSome = (d.secrets.lookup p).isSome) ∧
      (∀ p e, secrets.lookup p = some e → SealedUnder P (env.changedKey P w.calls newPassword) e) ∧
      ∃ e calls, (EncryptedStore.changePassword P env oldPassword newPassword).run w =
        .error (.error (.wrap (.ofString "failed to save metadata") e))
          { switchedWorld P env w m (c.derivedKey P oldPassword) k newPassword secrets d.secrets.size with calls } := by
  obtain ⟨secrets, hkeys, hvals, hrun⟩ := changePassword_run_switch hP hsess hk hm hu hsize hv hsealed hrand newPassword
  refine ⟨secrets, hkeys, hvals, ?_⟩
  rw [hrun]
  simp only [run_bind, wrapErr_run, saveMeta, mkdirAll_run, switchedWorld_calls, hmkdir, if_true, getStore_run]
  cases metaJson (switchedWorld P env w m (c.derivedKey P oldPassword) k newPassword secrets
    d.secrets.size).store.meta with
  | error e => exact ⟨e, _, rfl⟩
  | ok j =>
    simp only [writeFile_run, hopen]
    exact ⟨_, _, rfl⟩

/-- `ChangePassword` saves the metadata before the data. When the data file
cannot be opened after the metadata file was written, the metadata file
holds a verification blob sealed under the new key while the data file is
as it was; with a cipher that commits to its key, no key opens both that
blob and a secret the old session sealed. -/
theorem changePassword_data_save_failure_splits_keys (hP : P.Lawful) (hb : P.KeyBound) (hsess : Session w c k d)
    (hk : k < w.keys.length) (hm : w.store.meta = some m) (hu : c.params.Usable) (hsize : aesKeySizeOk (w.key k))
    {oldPassword : Bytes} (hv : opensToMagic P (c.derivedKey P oldPassword) m.verification)
    (hsealed : ∀ e ∈ d.secrets.entries, SealedUnder P (w.key k) e.2) (hrand : ∀ j, env.randFails j = false)
    (hc : m.createdAt.InRange)
    (hmk₁ : env.mkdirOk (w.calls + 3 + d.secrets.size) = true)
    (hw₁ : env.write (w.calls + 3 + d.secrets.size + 1) = .ok)
    (hmk₂ : env.mkdirOk (w.calls + 3 + d.secrets.size + 2) = true)
    (hw₂ : env.write (w.calls + 3 + d.secrets.size + 3) = .openFailed)
    {newPassword : Bytes} (hnew : env.changedKey P w.calls newPassword ≠ w.key k) :
    let ver := sealedText P (env.changedKey P w.calls newPassword) (env.nonce (w.calls + 1)) verificationMagic
    let w' := resultWorld ((EncryptedStore.changePassword P env oldPassword newPassword).run w)
    w'.disk.vaultFile = w.disk.vaultFile ∧
      w'.disk.metaFile = some (encodeIndent ({ m with
        salt := some (env.salt w.calls), argon2Params := defaultArgon2Params, verification := ver }.toJson
          (.string (Time.formatNano m.createdAt)))) ∧
      ∀ K, opensToMagic P K ver = true → ∀ e ∈ d.secrets.entries, openText P K e.2 = none := by
  intro ver w'
  refine ⟨?_, ?_, fun K hK e he => ?_⟩
  rotate_left 2
  · obtain ⟨nonce, pt, hn, he'⟩ := hsealed e he
    rw [he', eq_of_opensToMagic_sealed hb (nonce_length env _) hK]
    exact openText_sealedText_ne hb (Ne.symm hnew) hn pt
  all_goals
    obtain ⟨secrets, -, -, hrun⟩ := changePassword_run_switch hP hsess hk hm hu hsize hv hsealed hrand newPassword
    have hmeta := @saveMeta_run_ok env
      (switchedWorld P env w m (c.derivedKey P oldPassword) k newPassword secrets d.secrets.size) _ rfl hc hmk₁ hw₁
    have hw₂' : env.write (w.calls + 3 + d.secrets.size + 2 + 1) = .openFailed := hw₂
    simp only [w', hrun, run_bind, wrapErr_run, hmeta]
    simp [saveData, mkdirAll_run, writeFile_run, hmk₂, hw₂, hw₂', switchedWorld, Disk.set]

/-- `ChangePassword` replaces the secrets in memory and never sets `dirty`.
When its metadata save fails on a store whose data file held its secrets,
memory and the data file differ while the store is unlocked and clean, and
the `Lock` that follows returns nil and leaves the data file holding the old
map. -/
theorem changePassword_meta_save_failure_hides_changes (hP : P.Lawful) (hb : P.KeyBound)
    (hsess : Session w c k d) (hk : k < w.keys.length) (hm : w.store.meta = some m) (hu : c.params.Usable)
    (hsize : aesKeySizeOk (w.key k)) {oldPassword : Bytes} (hv : opensToMagic P (c.derivedKey P oldPassword) m.verification)
    (hsealed : ∀ e ∈ d.secrets.entries, SealedUnder P (w.key k) e.2) (hrand : ∀ j, env.randFails j = false)
    (hmkdir : env.mkdirOk (w.calls + 3 + d.secrets.size) = true)
    (hopen : env.write (w.calls + 3 + d.secrets.size + 1) = .openFailed)
    (hfile : w.disk.dataView = some d) (hclean : w.store.dirty = false) (hne : d.secrets.entries ≠ [])
    {newPassword : Bytes} (hnew : env.changedKey P w.calls newPassword ≠ w.key k) :
    let w' := resultWorld ((EncryptedStore.changePassword P env oldPassword newPassword).run w)
    w'.store.isLockedUnsafe = false ∧ w'.store.data ≠ w'.disk.dataView ∧ w'.store.dirty = false ∧
      resultFault ((EncryptedStore.lock env).run w') = none ∧
      (resultWorld ((EncryptedStore.lock env).run w')).disk.dataView = some d := by
  obtain ⟨secrets, hkeys, hvals, e, calls, hrun⟩ :=
    changePassword_run_metaOpenFails hP hsess hk hm hu hsize hv hsealed hrand hmkdir hopen newPassword
  intro w'
  have hw' : w' = { switchedWorld P env w m (c.derivedKey P oldPassword) k newPassword secrets d.secrets.size
      with calls } := by simp only [w', hrun, resultWorld_error]
  have hlock := @lock_run_clean env w' _ (w.keys.length + 1) (by rw [hw']; rfl) rfl (by rw [hw']; exact hclean)
  have hsecrets : secrets ≠ d.secrets := by
    obtain ⟨x, hx⟩ := List.exists_mem_of_ne_nil _ hne
    intro heq
    have hsize' : aesKeySizeOk (env.changedKey P w.calls newPassword) := by
      simp [Env.changedKey, aesKeySizeOk, derivedKey_length hP, Env.initCrypto, defaultArgon2Params]
    exact hnew (SealedUnder.key_unique hP hb hsize' (hvals x.1 x.2 (heq ▸ GoMap.lookup_of_mem hx))
      (hsealed x hx)).symm
  refine ⟨?_, ?_, ?_, ?_, ?_⟩
  · simp [hw', switchedWorld, EncryptedStore.isLockedUnsafe, Crypto.isUnlocked]
  · simpa [hw', switchedWorld, hfile] using fun h => hsecrets (congrArg VaultData.secrets h)
  · simpa [hw', switchedWorld] using hclean
  · rw [hlock]; rfl
  · rw [hlock]; simpa [hw', switchedWorld] using hfile

end Saves

/-! ## Samples -/

/-- The secret of "db" in the samples. -/
def dbSecret : Secret := { value := .ofString "s3cret" }

/-- A vault made with "hunter22" and holding "db", on an operating system
whose `i`-th call is a write that cannot open its file: the store before
`ChangePassword` to "correct horse", its session the key buffer 0. -/
def changeSample (i : Nat) : World :=
  runSteps Primitives.tagged (Env.writeFailsAt i)
    [.call (.init (.ofString "hunter22")), .call (.set (.ofString "db") dbSecret)] {}

/-- The session of `changeSample`. -/
def changeSampleCrypto (i : Nat) : Crypto := { (Env.writeFailsAt i).initCrypto 0 with key := some 0 }

/-- The secrets of `changeSample`: "db" sealed at its eighth call. -/
def changeSampleData (i : Nat) : VaultData :=
  ⟨GoMap.empty.insert (.ofString "db")
    (setCiphertext Primitives.tagged (Env.writeFailsAt i) ((changeSample i).key 0) 8 dbSecret)⟩

theorem changeSampleData_entries (i : Nat) :
    (changeSampleData i).secrets.entries =
      [(.ofString "db", setCiphertext Primitives.tagged (Env.writeFailsAt i) ((changeSample i).key 0) 8 dbSecret)] :=
  rfl

theorem changeSampleData_sealed (i : Nat) :
    ∀ e ∈ (changeSampleData i).secrets.entries, SealedUnder Primitives.tagged ((changeSample i).key 0) e.2 := by
  intro e he
  rw [changeSampleData_entries, List.mem_singleton] at he
  subst he
  exact ⟨_, _, nonce_length _ _, rfl⟩

theorem changeSample_reachable (i : Nat) : Reachable Primitives.tagged (Env.writeFailsAt i) (changeSample i) :=
  reachable_runSteps _ _ _ .fresh

/-- `changeSample` after `ChangePassword` from "hunter22" to "correct horse". -/
def changedSample (i : Nat) : World :=
  resultWorld ((EncryptedStore.changePassword Primitives.tagged (Env.writeFailsAt i) (.ofString "hunter22")
    (.ofString "correct horse")).run (changeSample i))

/-- The metadata `ChangePassword` writes in `changedSample`. -/
def changedSampleMeta (i : Nat) : VaultMeta :=
  { initMeta Primitives.tagged (Env.writeFailsAt i) (.ofString "hunter22") 0 with
    salt := some ((Env.writeFailsAt i).salt (changeSample i).calls)
    argon2Params := defaultArgon2Params
    verification := sealedText Primitives.tagged
      ((Env.writeFailsAt i).changedKey Primitives.tagged (changeSample i).calls (.ofString "correct horse"))
      ((Env.writeFailsAt i).nonce ((changeSample i).calls + 1)) verificationMagic }

set_option maxRecDepth 100000 in
theorem changedSample_views :
    (changedSample 19).disk.metaView.map (·.verification) =
        some (sealedText Primitives.tagged
          ((Env.writeFailsAt 19).changedKey Primitives.tagged 12 (.ofString "correct horse"))
          ((Env.writeFailsAt 19).nonce 13) verificationMagic) ∧
      (changedSample 19).disk.dataView.bind (·.secrets.lookup (.ofString "db")) =
        some (sealedText Primitives.tagged ((Env.writeFailsAt 19).changedKey Primitives.tagged 0 (.ofString "hunter22"))
          ((Env.writeFailsAt 19).nonce 9) (stamp dbSecret ((Env.writeFailsAt 19).now 8)).marshal) :=
  ⟨by decide, by decide⟩

set_option maxRecDepth 100000 in
/-- The sample store before `ChangePassword`, whichever of the two writes
fails: a clean session under "hunter22" whose data file holds its secrets. -/
theorem changeSample_session (i : Nat) (hi : i = 17 ∨ i = 19) :
    Session (changeSample i) (changeSampleCrypto i) 0 (changeSampleData i) ∧
      (changeSample i).store.meta = some (initMeta Primitives.tagged (Env.writeFailsAt i) (.ofString "hunter22") 0) ∧
      opensToMagic Primitives.tagged ((changeSampleCrypto i).derivedKey Primitives.tagged (.ofString "hunter22"))
        (initMeta Primitives.tagged (Env.writeFailsAt i) (.ofString "hunter22") 0).verification ∧
      (changeSample i).disk.dataView = some (changeSampleData i) ∧ (changeSample i).store.dirty = false := by
  rcases hi with rfl | rfl <;> exact ⟨⟨by decide, rfl, by decide⟩, by decide, by decide, by decide, by decide⟩

set_option maxRecDepth 100000 in
/-- The write of the data file fails after the metadata file was written:
the state is reachable, and its files have no key that opens them all. -/
theorem changePassword_data_save_failure_sample :
    Reachable Primitives.tagged (Env.writeFailsAt 19) (changedSample 19) ∧ (changedSample 19).disk.metaFile.isSome ∧
      (¬ ∃ K, FilesOpenUnder Primitives.tagged (changedSample 19).disk K) ∧
      (changedSample 19).disk.vaultFile = (changeSample 19).disk.vaultFile ∧
      (changedSample 19).disk.metaFile = some (encodeIndent ((changedSampleMeta 19).toJson
        (.string (Time.formatNano (changedSampleMeta 19).createdAt)))) ∧
      ∀ K, opensToMagic Primitives.tagged K (changedSampleMeta 19).verification = true →
        ∀ e ∈ (changeSampleData 19).secrets.entries, openText Primitives.tagged K e.2 = none :=
  ⟨(changeSample_reachable 19).step (.changePassword (.ofString "hunter22") (.ofString "correct horse")), by decide,
    not_filesOpenUnder Primitives.tagged_keyBound (by decide) (nonce_length _ _) (nonce_length _ _)
      changedSample_views.1 changedSample_views.2,
    changePassword_data_save_failure_splits_keys Primitives.tagged_lawful Primitives.tagged_keyBound
      (changeSample_session 19 (.inr rfl)).1 (by decide) (changeSample_session 19 (.inr rfl)).2.1
      defaultArgon2Params_usable (by decide) (changeSample_session 19 (.inr rfl)).2.2.1 (changeSampleData_sealed 19)
      (fun _ => rfl : ∀ j, (Env.writeFailsAt 19).randFails j = false)
      (by decide) rfl (by decide) rfl (by decide) (by decide)⟩

set_option maxRecDepth 100000 in
/-- The write of the metadata file fails: the state is reachable, unlocked
and clean, memory and the data file differ, and `Lock` returns nil leaving
the data file as it was. -/
theorem changePassword_meta_save_failure_sample :
    let env := Env.writeFailsAt 17
    Reachable Primitives.tagged env (changedSample 17) ∧
      (changedSample 17).store.isLockedUnsafe = false ∧
      (changedSample 17).store.data ≠ (changedSample 17).disk.dataView ∧ (changedSample 17).store.dirty = false ∧
      resultFault ((EncryptedStore.lock env).run (changedSample 17)) = none ∧
      (resultWorld ((EncryptedStore.lock env).run (changedSample 17))).disk.dataView = some (changeSampleData 17) :=
  ⟨(changeSample_reachable 17).step (.changePassword (.ofString "hunter22") (.ofString "correct horse")),
    changePassword_meta_save_failure_hides_changes Primitives.tagged_lawful Primitives.tagged_keyBound
      (changeSample_session 17 (.inl rfl)).1 (by decide) (changeSample_session 17 (.inl rfl)).2.1
      defaultArgon2Params_usable (by decide) (changeSample_session 17 (.inl rfl)).2.2.1 (changeSampleData_sealed 17)
      (fun _ => rfl : ∀ j, (Env.writeFailsAt 17).randFails j = false) rfl (by decide)
      (changeSample_session 17 (.inl rfl)).2.2.2.1 (changeSample_session 17 (.inl rfl)).2.2.2.2 (by decide)
      (by decide)⟩

end OmniVault.Store