import OmniVault.Store.Steps
import OmniVault.Store.Refinement

/-!
The worlds a store can reach, and what holds in every one of them.

A run starts from no files and a fresh store and takes steps: a call of
one of the store's methods, `ChangePassword`, or a restart of the process,
which keeps the files and starts a fresh store. The operating system may
fail any of its calls, as `Env` says, so a run reaches the worlds every
failed write leaves, torn files included.

In every reachable world the metadata, in memory and in its file when the
file reads, is as `Initialize` and `ChangePassword` make it (`MetaSound`).
So `Unlock` with a password its blob rejects fails with "invalid password"
and leaves the session, the data and the files alone; but it has loaded
the metadata file first, so the metadata in memory is the file's.
-/

namespace OmniVault.Store

open Vault Json

/-! ## Runs of the store -/

/-- One step in the life of a store: a call of one of its methods, a
password change, or the process starting again over the same files. -/
inductive StoreStep where
  | call (c : StoreCall)
  | changePassword (oldPassword newPassword : Bytes)
  | restart

section Steps

variable (P : Primitives) (env : Env)

/-- The world a step leaves, whether its call returned or failed. -/
def StoreStep.run : StoreStep → World → World
  | .call c, w => resultWorld ((c.run P env).run w)
  | .changePassword o n, w => resultWorld ((EncryptedStore.changePassword P env o n).run w)
  | .restart, w => w.restart

/-- The worlds a run of steps reaches from no files and a fresh store. -/
inductive Reachable : World → Prop where
  | fresh : Reachable {}
  | step (s : StoreStep) {w : World} : Reachable w → Reachable (s.run P env w)

/-- The steps one after the other. -/
def runSteps (steps : List StoreStep) (w : World) : World :=
  steps.foldl (fun w s => s.run P env w) w

theorem reachable_runSteps : ∀ (steps : List StoreStep) {w : World},
    Reachable P env w → Reachable P env (runSteps P env steps w)
  | [], _, h => h
  | s :: steps, _, h => reachable_runSteps steps (h.step s)

end Steps

/-! ## Metadata as the store writes it -/

/-- Metadata as `Initialize` and `ChangePassword` make it: version 1, the
default parameters, a salt `NewCrypto` accepts, and a verification blob in
base64. -/
structure VaultMeta.Sound (m : VaultMeta) : Prop where
  version : m.version = 1
  params : m.argon2Params = defaultArgon2Params
  salt : ∃ salt, m.salt = some salt ∧ 16 ≤ salt.length
  verification : Utf8.valid m.verification

/-- The metadata file, when it reads, and the metadata in memory are sound. -/
structure MetaSound (w : World) : Prop where
  file : ∀ m, w.disk.metaView = some m → m.Sound
  memory : ∀ m, w.store.meta = some m → m.Sound

section MetaSound

variable {P : Primitives} {env : Env} {w : World}

/-- What is read back from a prefix of sound metadata's document is sound. -/
theorem VaultMeta.Sound.of_readMeta {m : VaultMeta} (hm : m.Sound) {j : Json} (hj : metaJson (some m) = .ok j)
    (n : Nat) {m' : VaultMeta} (h : readMeta ((encodeIndent j).take n) = some m') : m'.Sound := by
  by_cases hn : n < (encodeIndent j).length
  · rw [readMeta_take hj hn] at h
    cases h
  rw [List.take_of_length_le (Nat.le_of_not_lt hn),
    readMeta_written (by simp [hm.version]) (hm.params ▸ defaultArgon2Params_fits) hm.verification hj] at h
  obtain ⟨t, -, rfl⟩ := Option.map_eq_some'.mp h
  exact ⟨hm.version, hm.params, hm.salt, hm.verification⟩

theorem MetaSound.of_eq {w' : World} (h : MetaSound w) (hm : w'.store.meta = w.store.meta)
    (hf : w'.disk.metaFile = w.disk.metaFile) : MetaSound w' :=
  ⟨fun m hv => h.file m (by rwa [Disk.metaView, hf] at hv), fun m hv => h.memory m (hm ▸ hv)⟩

/-- Saving sound metadata keeps every metadata the world holds sound. -/
theorem MetaSound.saves {v : World} {r : EStateM.Result Fault World Unit} (h : MetaSound v) {m : VaultMeta}
    (hm : v.store.meta = some m)
    (hr : (do wrapErr (.ofString "failed to save metadata") (saveMeta env)
              wrapErr (.ofString "failed to save data") (saveData env)).run v = r) :
    MetaSound (resultWorld r) := by
  obtain ⟨hmem, hfile | ⟨j, n, hj, hfile⟩⟩ := saves_meta hr
  · exact h.of_eq hmem hfile
  · refine ⟨fun m' hv => ?_, fun m' hv => h.memory m' (hmem ▸ hv)⟩
    rw [Disk.metaView, hfile, Option.some_bind] at hv
    rw [hm] at hj
    exact (h.memory m hm).of_readMeta hj n hv

theorem MetaSound.fresh : MetaSound ({} : World) :=
  ⟨fun _ h => (by cases h), fun _ h => (by cases h)⟩

/-- A verification blob is base64, so valid UTF-8. -/
theorem valid_blob {ver : Bytes} (hver : ∃ key nonce, ver = sealedText P key nonce verificationMagic) :
    Utf8.valid ver := by
  obtain ⟨key, nonce, rfl⟩ := hver
  exact Base64.valid_encode _

theorem MetaSound.init (h : MetaSound w) (password : Bytes) :
    MetaSound (resultWorld ((EncryptedStore.init P env password).run w)) := by
  rcases @init_cases P env password _ _ rfl with ⟨hs, hd⟩ |
    ⟨c, ver, t, t', v, -, hp, hsl, hver, hvd, hvs, hr⟩
  · exact h.of_eq (by rw [hs]) (by rw [hd])
  have hsound : VaultMeta.Sound ⟨1, t, some c.salt, c.params, ver⟩ :=
    ⟨rfl, hp, ⟨_, rfl, hsl⟩, valid_blob hver⟩
  refine MetaSound.saves ⟨fun m hm => h.file m (hvd ▸ hm), fun m hm => ?_⟩ (by rw [hvs]) hr
  rw [hvs] at hm
  cases hm
  exact hsound

theorem MetaSound.changePassword (h : MetaSound w) (o n : Bytes) :
    MetaSound (resultWorld ((EncryptedStore.changePassword P env o n).run w)) := by
  rcases @changePassword_cases P env o n _ _ rfl with ⟨hs, hd⟩ |
    ⟨m, c, c', d, ver, secrets, v, hm, -, -, hp, hsl, hver, hvd, hvs, hr⟩
  · exact h.of_eq (by rw [hs]) (by rw [hd])
  have hm' := h.memory m hm
  refine MetaSound.saves ⟨fun m hm => h.file m (hvd ▸ hm), fun m₁ hm₁ => ?_⟩ (by rw [hvs]) hr
  rw [hvs] at hm₁
  cases hm₁
  exact ⟨hm'.version, hp, ⟨_, rfl, hsl⟩, valid_blob hver⟩

theorem MetaSound.unlock (h : MetaSound w) (password : Bytes) :
    MetaSound (resultWorld ((EncryptedStore.unlock P env password).run w)) := by
  rcases hr : (EncryptedStore.unlock P env password).run w with ⟨u, w'⟩ | ⟨f, w'⟩
  · obtain ⟨m, c, hm, -, -, -, d, -, calls, t, rfl⟩ := unlock_run_ok_inv hr
    show MetaSound _
    exact ⟨h.file, fun m' hm' => h.file m' (by cases hm'; exact hm)⟩
  · have hk := unlock_run_error_keeps hr
    show MetaSound w'
    refine ⟨fun m hm => h.file m (by rwa [hk.disk] at hm), fun m hm => ?_⟩
    rcases hk.meta with hmeta | hmeta <;> rw [hmeta] at hm
    · exact h.memory m hm
    · exact h.file m hm

theorem MetaSound.saveData (h : MetaSound w) : MetaSound (resultWorld ((saveData env).run w)) :=
  h.of_eq (saveData_meta w).1 (saveData_meta w).2

theorem MetaSound.set (h : MetaSound w) (path : Bytes) (secret : Secret) :
    MetaSound (resultWorld ((EncryptedStore.set P env path secret).run w)) := by
  rcases @set_cases P env path secret _ _ rfl with ⟨hs, hd⟩ |
    ⟨d, ct, v, -, -, -, hvd, hvs, hr⟩
  · exact h.of_eq (by rw [hs]) (by rw [hd])
  have hv : MetaSound v := h.of_eq (by rw [hvs]) (by rw [hvd])
  rw [← hr]
  split
  · exact hv.saveData
  · exact hv

theorem MetaSound.delete (h : MetaSound w) (path : Bytes) :
    MetaSound (resultWorld ((EncryptedStore.delete env path).run w)) := by
  rcases @delete_cases env path _ _ rfl with ⟨e, he⟩ | ⟨d, -, -, hr⟩
  · rw [he]; exact h
  have hv : MetaSound { w with store := { w.store with data := some ⟨d.secrets.erase path⟩, dirty := true } } :=
    h.of_eq rfl rfl
  rw [← hr]
  split
  · exact hv.saveData
  · exact hv

theorem MetaSound.lock (h : MetaSound w) : MetaSound (resultWorld ((EncryptedStore.lock env).run w)) := by
  rcases @lock_cases env w _ rfl with ⟨-, he⟩ | ⟨c, -, ⟨-, e, v, hs, hv⟩ | ⟨v, keys, hv, he⟩⟩
  · rw [he]; exact h
  · rw [hv]
    have := (@MetaSound.saveData env _ h)
    rwa [hs] at this
  · rw [he]
    have hv' : MetaSound v := by
      rcases hv with ⟨-, rfl⟩ | ⟨-, hs⟩
      · exact h
      · have := @MetaSound.saveData env _ h
        rwa [hs] at this
    exact hv'.of_eq rfl rfl

theorem MetaSound.step (h : MetaSound w) : ∀ s : StoreStep, MetaSound (s.run P env w)
  | .restart => ⟨h.file, fun _ hm => by cases hm⟩
  | .changePassword o n => h.changePassword o n
  | .call (.init password) => h.init password
  | .call (.unlock password) => h.unlock password
  | .call .lock => h.lock
  | .call (.set path secret) => h.set path secret
  | .call (.delete path) => h.delete path
  | .call (.get path) => by
    simp only [StoreStep.run, StoreCall.run, resultWorld_discard, get_world]; exact h
  | .call (.exists path) => by
    simp only [StoreStep.run, StoreCall.run, resultWorld_discard, exists_world]; exact h
  | .call (.list pre) => by
    simp only [StoreStep.run, StoreCall.run, resultWorld_discard, list_world]; exact h
  | .call .secretCount => by
    simp only [StoreStep.run, StoreCall.run, resultWorld_discard, secretCount_run]; exact h

theorem Reachable.metaSound (hw : Reachable P env w) : MetaSound w := by
  induction hw with
  | fresh => exact MetaSound.fresh
  | step s _ ih => exact ih.step s

end MetaSound

section WrongPassword

variable {P : Primitives} {env : Env} {w : World}

/-- `Unlock` with a password the metadata file's blob rejects, in a reachable
world: it fails, and changes neither the session, the data, nor the files.
Every key buffer there was stays as it was; the one `VerifyPassword` made
for the wrong password is zeroed. But `loadMeta` has already replaced the
metadata in memory with the file's. -/
theorem unlock_wrong_password_loads_meta (hreach : Reachable P env w) {m : VaultMeta}
    (hm : w.disk.metaView = some m) {password : Bytes}
    (hwrong : ∀ salt, m.salt = some salt →
      opensToMagic P ((m.crypto salt).derivedKey P password) m.verification = false) :
    let r := (EncryptedStore.unlock P env password).run w
    resultFault r = some (if env.readFails w.calls
      then .error (.wrap (.ofString "failed to load metadata") (.os (.ofString "read") false))
      else .error (.text (.ofString "invalid password"))) ∧
    (resultWorld r).store = { w.store with meta := if env.readFails w.calls then w.store.meta else some m } ∧
    (resultWorld r).disk = w.disk ∧
    ∃ tmp, (resultWorld r).keys = w.keys ++ tmp ∧ ∀ b ∈ tmp, b.zeroed = true ∧ ∀ x ∈ b.bytes, x = 0 := by
  obtain ⟨-, hparams, ⟨salt, hs, hsl⟩, -⟩ := hreach.metaSound.file m hm
  obtain ⟨b, hf, hb⟩ := Option.bind_eq_some.mp hm
  cases hrd : env.readFails w.calls
  · rw [unlock_run_wrongPassword hf hrd hb hs hsl (hparams ▸ defaultArgon2Params_usable) password (hwrong salt hs)]
    exact ⟨rfl, rfl, rfl, _, rfl, by simp⟩
  · rw [unlock_run_metaReadFails hf hrd]
    exact ⟨rfl, rfl, rfl, [], by simp, by simp⟩

set_option maxRecDepth 100000 in
/-- A vault made with "hunter2" and still unlocked, then `Unlock` with
"hunter1": the session stays, and so does its key buffer. -/
theorem unlock_wrong_password_sample :
    let P := Primitives.passwordFirst
    let env := Env.reliable Time.zero
    let w := runSteps P env [.call (.init (.ofString "hunter2"))] {}
    let r := (EncryptedStore.unlock P env (.ofString "hunter1")).run w
    w.store.isLockedUnsafe = false ∧
    resultFault r = some (if env.readFails w.calls
      then .error (.wrap (.ofString "failed to load metadata") (.os (.ofString "read") false))
      else .error (.text (.ofString "invalid password"))) ∧
    (resultWorld r).store = { w.store with
      meta := if env.readFails w.calls then w.store.meta
        else some (initMeta Primitives.passwordFirst env (.ofString "hunter2") 0) } ∧
    (resultWorld r).disk = w.disk ∧
    ∃ tmp, (resultWorld r).keys = w.keys ++ tmp ∧ ∀ b ∈ tmp, b.zeroed = true ∧ ∀ x ∈ b.bytes, x = 0 :=
  ⟨by decide, unlock_wrong_password_loads_meta (reachable_runSteps _ _ _ .fresh) (by decide)
    fun salt hs => by cases hs; decide⟩

set_option maxRecDepth 100000 in
/-- A vault made with "hunter2", the process restarted, and `Unlock` with
"hunter1": it fails as it should, but the store that had no metadata in
memory now holds the file's. -/
theorem unlock_wrong_password_after_restart :
    let P := Primitives.passwordFirst
    let env := Env.reliable Time.zero
    let w := runSteps P env [.call (.init (.ofString "hunter2")), .restart] {}
    let r := (EncryptedStore.unlock P env (.ofString "hunter1")).run w
    Reachable P env w ∧ resultFault r = some (.error (.text (.ofString "invalid password"))) ∧
      w.store.meta = none ∧ (resultWorld r).store.meta ≠ w.store.meta :=
  ⟨reachable_runSteps _ _ _ .fresh, by decide, by decide, by decide⟩

end WrongPassword

end OmniVault.Store
