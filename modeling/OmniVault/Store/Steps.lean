import OmniVault.Store.Effects

/-!
Every way each method that writes can end, said once so that the
invariants over runs never unfold a method again.

`Initialize` and `ChangePassword` first build their new state in memory out
of computations that touch neither the store nor the files (`Framed`): when
one of them fails, the store and the files are as they were; otherwise each
method is the two saves, run from the world it has built. `Set` and `Delete`
likewise end in `saveData` when `autoSave` is on. A failed `Unlock` may have
loaded the metadata file and dropped its session, and changes nothing else.
-/

namespace OmniVault.Store

open Vault Json

variable {P : Primitives} {env : Env}

/-- `ChangePassword`'s loop decrypts and encrypts, and locks the new session
when it fails: it never touches the store or the files. -/
theorem framed_reencrypt (old new : Crypto) :
    ∀ (l : List (Bytes × Bytes)) (acc : GoMap Bytes), Framed (reencrypt P env old new l acc) fun _ => True
  | [], acc => (framed_pure acc).mono fun _ _ => trivial
  | (path, e) :: rest, acc => by
    unfold reencrypt
    exact (((framed_decrypt old e).onError fun _ => framed_lock_throw new _).bind fun _ _ =>
      ((framed_encrypt new _).onError fun _ => framed_lock_throw new _).bind fun _ _ =>
        framed_reencrypt old new rest _)

/-! ## Initialize and ChangePassword -/

/-- Every way `Initialize` ends: with the store and the files as they were,
or as the two saves end from the world it has built, which holds new
metadata of the default parameters, an empty vault and the new session. -/
theorem init_cases {password : Bytes} {w : World} {r : EStateM.Result Fault World Unit}
    (hr : (EncryptedStore.init P env password).run w = r) :
    ((resultWorld r).store = w.store ∧ (resultWorld r).disk = w.disk) ∨
      ∃ (c : Crypto) (ver : Bytes) (t t' : Time) (v : World),
        w.disk.metaFile = none ∧ c.params = defaultArgon2Params ∧ 16 ≤ c.salt.length ∧
        (∃ key nonce, ver = sealedText P key nonce verificationMagic) ∧
        v.disk = w.disk ∧
        v.store = { w.store with
          meta := some ⟨1, t, some c.salt, c.params, ver⟩
          data := some ⟨GoMap.empty⟩
          crypto := some c
          unlockTime := t' } ∧
        (do wrapErr (.ofString "failed to save metadata") (saveMeta env)
            wrapErr (.ofString "failed to save data") (saveData env)).run v = r := by
  unfold EncryptedStore.init EncryptedStore.vaultExists at hr
  rw [run_bind, fileExists_run] at hr
  dsimp only at hr
  rcases hf : w.disk.metaFile with _ | b
  swap
  · simp only [Disk.get, hf, Option.isSome_some, if_true, run_bind, fail_run] at hr
    exact .inl (hr ▸ ⟨rfl, rfl⟩)
  simp only [Disk.get, hf, Option.isSome_none, Bool.false_eq_true, if_false] at hr
  rw [run_bind, run_pure] at hr
  dsimp only at hr
  rcases ((@framed_newCrypto env none defaultArgon2Params).wrapErr _).bind_cases hr with
    ⟨e, w', rfl, hs, hd⟩ | ⟨c₀, w₁, ⟨hp, -, hsl⟩, hs₁, hd₁, hr₁⟩
  · exact .inl ⟨hs, hd⟩
  rcases (framed_unlock (P := P) c₀ password).bind_cases hr₁ with
    ⟨e, w', rfl, hs, hd⟩ | ⟨c, w₂, ⟨hp', hsalt⟩, hs₂, hd₂, hr₂⟩
  · exact .inl ⟨hs.trans hs₁, hd.trans hd₁⟩
  rcases ((@framed_createVerificationBlob P env c).onError fun _ =>
      framed_lock_throw c _).bind_cases hr₂ with
    ⟨e, w', rfl, hs, hd⟩ | ⟨ver, w₃, hver, hs₃, hd₃, hr₃⟩
  · exact .inl ⟨hs.trans (hs₂.trans hs₁), hd.trans (hd₂.trans hd₁)⟩
  rw [run_bind, now_run] at hr₃
  dsimp only at hr₃
  rw [run_bind, modifyStore_run] at hr₃
  dsimp only at hr₃
  rw [run_bind, modifyStore_run] at hr₃
  dsimp only at hr₃
  rw [run_bind, modifyStore_run] at hr₃
  dsimp only at hr₃
  rw [run_bind, now_run] at hr₃
  dsimp only at hr₃
  rw [run_bind, modifyStore_run] at hr₃
  dsimp only at hr₃
  refine .inr ⟨c, ver, env.now w₃.calls, env.now (w₃.calls + 1), _, rfl, hp'.trans hp, hsalt ▸ hsl, hver, ?_, ?_, hr₃⟩
  · exact hd₃.trans (hd₂.trans hd₁)
  simp only [hs₃, hs₂, hs₁]

/-- Every way `ChangePassword` ends: with the store and the files as they
were, or as the two saves end from the world it has built, which holds the
old metadata with a new salt, the default parameters and a new blob, the
re-encrypted secrets and the new session. -/
theorem changePassword_cases {o n : Bytes} {w : World} {r : EStateM.Result Fault World Unit}
    (hr : (EncryptedStore.changePassword P env o n).run w = r) :
    ((resultWorld r).store = w.store ∧ (resultWorld r).disk = w.disk) ∨
      ∃ (m : VaultMeta) (c c' : Crypto) (d : VaultData) (ver : Bytes) (secrets : GoMap Bytes) (v : World),
        w.store.meta = some m ∧ w.store.crypto = some c ∧ w.store.data = some d ∧
        c'.params = defaultArgon2Params ∧ 16 ≤ c'.salt.length ∧ (∃ key nonce, ver = sealedText P key nonce verificationMagic) ∧
        v.disk = w.disk ∧
        v.store = { w.store with
          meta := some { m with salt := some c'.salt, argon2Params := c'.params, verification := ver }
          data := some ⟨secrets⟩
          crypto := some c' } ∧
        (do wrapErr (.ofString "failed to save metadata") (saveMeta env)
            wrapErr (.ofString "failed to save data") (saveData env)).run v = r := by
  unfold EncryptedStore.changePassword at hr
  rw [run_bind, getStore_run] at hr
  dsimp only at hr
  rcases hm : w.store.meta with _ | m <;> rw [hm] at hr
  · exact .inl (hr ▸ ⟨rfl, rfl⟩)
  rcases hc : w.store.crypto with _ | c <;> rw [hc] at hr
  · exact .inl (hr ▸ ⟨rfl, rfl⟩)
  dsimp only at hr
  rcases (framed_verifyPassword (P := P) c o m.verification).bind_cases hr with
    ⟨e, w', rfl, hs, hd⟩ | ⟨ok, w₁, -, hs₁, hd₁, hr₁⟩
  · exact .inl ⟨hs, hd⟩
  cases ok
  · rw [if_neg Bool.false_ne_true, run_bind, fail_run] at hr₁
    exact .inl (hr₁ ▸ ⟨hs₁, hd₁⟩)
  rw [if_pos rfl, run_bind, run_pure] at hr₁
  dsimp only at hr₁
  rcases ((@framed_newCrypto env none defaultArgon2Params).wrapErr _).bind_cases hr₁ with
    ⟨e, w', rfl, hs, hd⟩ | ⟨nc, w₂, ⟨hp, -, hsl⟩, hs₂, hd₂, hr₂⟩
  · exact .inl ⟨hs.trans hs₁, hd.trans hd₁⟩
  rcases (framed_unlock (P := P) nc n).bind_cases hr₂ with
    ⟨e, w', rfl, hs, hd⟩ | ⟨nc', w₃, ⟨hp', hsalt⟩, hs₃, hd₃, hr₃⟩
  · exact .inl ⟨hs.trans (hs₂.trans hs₁), hd.trans (hd₂.trans hd₁)⟩
  rcases ((@framed_createVerificationBlob P env nc').onError fun _ =>
      framed_lock_throw nc' _).bind_cases hr₃ with
    ⟨e, w', rfl, hs, hd⟩ | ⟨ver, w₄, hver, hs₄, hd₄, hr₄⟩
  · exact .inl ⟨hs.trans (hs₃.trans (hs₂.trans hs₁)), hd.trans (hd₃.trans (hd₂.trans hd₁))⟩
  have hs₄' : w₄.store = w.store := hs₄.trans (hs₃.trans (hs₂.trans hs₁))
  have hd₄' : w₄.disk = w.disk := hd₄.trans (hd₃.trans (hd₂.trans hd₁))
  rw [run_bind, getStore_run, hs₄'] at hr₄
  dsimp only at hr₄
  rcases hd : w.store.data with _ | d <;> rw [hd] at hr₄
  · exact .inl (hr₄ ▸ ⟨hs₄', hd₄'⟩)
  dsimp only at hr₄
  rw [run_bind, nextCall_run] at hr₄
  dsimp only at hr₄
  rcases (@framed_reencrypt P env c nc' _ _).bind_cases hr₄ with
    ⟨e, w', rfl, hs, hd⟩ | ⟨secrets, w₅, -, hs₅, hd₅, hr₅⟩
  · exact .inl ⟨hs.trans hs₄', hd.trans hd₄'⟩
  rw [run_bind, modifyStore_run] at hr₅
  dsimp only at hr₅
  rw [run_bind, modifyStore_run] at hr₅
  dsimp only at hr₅
  rw [run_bind, lock_run] at hr₅
  dsimp only at hr₅
  rw [run_bind, modifyStore_run] at hr₅
  dsimp only at hr₅
  refine .inr ⟨m, c, nc', d, ver, secrets, _, rfl, rfl, rfl, hp'.trans hp, hsalt ▸ hsl, hver, ?_, ?_, hr₅⟩ <;>
    cases c.key <;> simp [hs₅, hd₅, hs₄', hd₄']

/-! ## Set, Delete and Lock -/

/-- Every way `Set` ends: with the store and the files as they were, or as
`saveData` ends (when `autoSave` is on) from the store holding the new
ciphertext and marked dirty. -/
theorem set_cases {path : Bytes} {secret : Secret} {w : World} {r : EStateM.Result Fault World Unit}
    (hr : (EncryptedStore.set P env path secret).run w = r) :
    ((resultWorld r).store = w.store ∧ (resultWorld r).disk = w.disk) ∨
      ∃ (d : VaultData) (ct : Bytes) (v : World),
        w.store.isLockedUnsafe = false ∧ w.store.data = some d ∧
        (∃ key nonce t, ct = sealedText P key nonce (stamp secret t).marshal) ∧
        v.disk = w.disk ∧
        v.store = { w.store with data := some ⟨d.secrets.insert path ct⟩, dirty := true } ∧
        (if w.store.autoSave then saveData env else pure ()).run v = r := by
  unfold EncryptedStore.set at hr
  rw [run_bind, getStore_run] at hr
  dsimp only at hr
  cases hl : w.store.isLockedUnsafe
  swap
  · simp only [hl, if_true, run_bind, fail_run] at hr
    exact .inl (hr ▸ ⟨rfl, rfl⟩)
  simp only [hl, Bool.false_eq_true, if_false] at hr
  rw [run_bind, run_pure] at hr
  dsimp only at hr
  rw [run_bind, now_run] at hr
  dsimp only at hr
  rcases hc : w.store.crypto with _ | c <;> rw [hc] at hr
  · exact .inl (hr ▸ ⟨rfl, rfl⟩)
  dsimp only at hr
  rcases ((@framed_encrypt P env c _).wrapErr _).bind_cases hr with
    ⟨e, w', rfl, hs, hd⟩ | ⟨ct, w₁, hct, hs₁, hd₁, hr₁⟩
  · exact .inl ⟨hs, hd⟩
  rcases hd : w.store.data with _ | d <;> rw [hd] at hr₁
  · exact .inl (hr₁ ▸ ⟨hs₁, hd₁⟩)
  dsimp only at hr₁
  rw [run_bind, modifyStore_run] at hr₁
  dsimp only at hr₁
  obtain ⟨key, nonce, rfl⟩ := hct
  refine .inr ⟨d, _, _, rfl, rfl, ⟨key, nonce, env.now w.calls, rfl⟩, ?_, ?_, hr₁⟩
  · exact hd₁
  · rw [hs₁]

/-- Every way `Delete` ends: with nothing changed, or as `saveData` ends
(when `autoSave` is on) from the store without the path and marked dirty. -/
theorem delete_cases {path : Bytes} {w : World} {r : EStateM.Result Fault World Unit}
    (hr : (EncryptedStore.delete env path).run w = r) :
    (∃ e, r = .error e w) ∨
      ∃ d, w.store.isLockedUnsafe = false ∧ w.store.data = some d ∧
        (if w.store.autoSave then saveData env else pure ()).run
          { w with store := { w.store with data := some ⟨d.secrets.erase path⟩, dirty := true } } = r := by
  unfold EncryptedStore.delete at hr
  rw [run_bind, getStore_run] at hr
  dsimp only at hr
  cases hl : w.store.isLockedUnsafe
  swap
  · simp only [hl, if_true, run_bind, fail_run] at hr
    exact .inl ⟨_, hr.symm⟩
  simp only [hl, Bool.false_eq_true, if_false] at hr
  rw [run_bind, run_pure] at hr
  dsimp only at hr
  rcases hd : w.store.data with _ | d <;> rw [hd] at hr
  · exact .inl ⟨_, hr.symm⟩
  rw [run_bind, modifyStore_run] at hr
  exact .inr ⟨d, rfl, rfl, hr⟩

/-- Every way `Lock` ends: with nothing to do when there is no session;
failing after `saveData` failed on a dirty store; or after saving a dirty
store, with the session, the data and the flag dropped. -/
theorem lock_cases {w : World} {r : EStateM.Result Fault World Unit} (hr : (EncryptedStore.lock env).run w = r) :
    (w.store.crypto = none ∧ r = .ok () w) ∨
      ∃ c, w.store.crypto = some c ∧
        ((w.store.dirty = true ∧ ∃ e v, (saveData env).run w = .error e v ∧ resultWorld r = v) ∨
          ∃ v keys, (w.store.dirty = false ∧ v = w ∨ w.store.dirty = true ∧ (saveData env).run w = .ok () v) ∧
            r = .ok () { v with keys, store := { v.store with crypto := none, data := none, dirty := false } }) := by
  unfold EncryptedStore.lock at hr
  rw [run_bind, getStore_run] at hr
  dsimp only at hr
  rcases hc : w.store.crypto with _ | c <;> rw [hc] at hr
  · exact .inl ⟨rfl, hr.symm⟩
  refine .inr ⟨c, rfl, ?_⟩
  dsimp only at hr
  cases hd : w.store.dirty <;> simp only [hd, Bool.false_eq_true, if_false, if_true] at hr
  · rw [run_bind, run_pure] at hr
    dsimp only at hr
    rw [run_bind, lock_run] at hr
    dsimp only at hr
    rw [modifyStore_run] at hr
    rcases hk : c.key with _ | k <;> simp only [hk] at hr <;> exact .inr ⟨w, _, .inl ⟨rfl, rfl⟩, hr.symm⟩
  rw [run_bind, wrapErr_run] at hr
  rcases hs : (saveData env).run w with ⟨_, v⟩ | ⟨(e | e), v⟩ <;> rw [hs] at hr <;> dsimp only at hr
  · rw [run_bind, lock_run] at hr
    dsimp only at hr
    rw [modifyStore_run] at hr
    rcases hk : c.key with _ | k <;> simp only [hk] at hr <;> exact .inr ⟨v, _, .inr ⟨rfl, rfl⟩, hr.symm⟩
  · exact .inl ⟨rfl, _, v, rfl, hr ▸ rfl⟩
  · exact .inl ⟨rfl, _, v, rfl, hr ▸ rfl⟩

/-! ## Unlock -/

/-- What a call that fails, or changes nothing, may leave: the files as they
were, the data and its flag as they were, the session as it was or dropped,
the metadata as it was or as the metadata file reads, and more key buffers. -/
structure Keeps (w w' : World) : Prop where
  disk : w'.disk = w.disk
  crypto : w'.store.crypto = w.store.crypto ∨ w'.store.crypto = none
  data : w'.store.data = w.store.data
  dirty : w'.store.dirty = w.store.dirty
  meta : w'.store.meta = w.store.meta ∨ w'.store.meta = w.disk.metaView
  keys : ∃ bs, w'.keys = w.keys ++ bs

theorem Keeps.refl (w : World) : Keeps w w := ⟨rfl, .inl rfl, rfl, rfl, .inl rfl, [], (List.append_nil _).symm⟩

theorem Keeps.calls (w : World) (n : Nat) : Keeps w { w with calls := n } :=
  ⟨rfl, .inl rfl, rfl, rfl, .inl rfl, [], (List.append_nil _).symm⟩

/-- Every `Unlock` that fails keeps the store but for the metadata, which it
may have loaded, and the session, which it may have dropped. -/
theorem unlock_run_error_keeps {password : Bytes} {f : Fault} {w w' : World}
    (h : (EncryptedStore.unlock P env password).run w = .error f w') : Keeps w w' := by
  rcases hf : w.disk.metaFile with _ | b
  · rw [unlock_run_noVault hf] at h; cases h; exact Keeps.refl w
  cases hrd : env.readFails w.calls
  case true => rw [unlock_run_metaReadFails hf hrd] at h; cases h; exact Keeps.calls w _
  rcases hm : readMeta b with _ | m
  · simp [EncryptedStore.unlock, EncryptedStore.vaultExists, Disk.get, hf, loadMeta, readFile_run, hrd, hm] at h
    obtain ⟨-, rfl⟩ := h
    exact Keeps.calls w _
  have hview : w.disk.metaView = some m := by simp [Disk.metaView, hf, hm]
  have hloaded (crypto : Option Crypto) (hc : crypto = w.store.crypto ∨ crypto = none) (t : Time)
      (keys : List KeyBuffer) (hk : ∃ bs, keys = w.keys ++ bs) (calls : Nat) :
      Keeps w
        { store := { w.store with meta := some m, crypto, unlockTime := t }
          disk := w.disk
          keys
          calls } := ⟨rfl, hc, rfl, rfl, .inr hview.symm, hk⟩
  simp [EncryptedStore.unlock, EncryptedStore.vaultExists, Disk.get, hf, loadMeta_run_ok hf hrd hm] at h
  rcases @newCrypto_cases env m.salt m.argon2Params
      { w with calls := w.calls + 1, store := { w.store with meta := some m } } with ⟨e, calls, hc⟩ | ⟨salt, calls, hc⟩
  · simp [hc] at h
    obtain ⟨-, rfl⟩ := h
    exact hloaded _ (.inl rfl) _ _ ⟨[], (List.append_nil _).symm⟩ calls
  simp only [hc] at h
  by_cases hu : m.argon2Params.Usable
  swap
  · obtain ⟨msg, hv⟩ := verifyPassword_run_unusable (P := P) (c := ⟨m.argon2Params, salt, none⟩) hu password
      m.verification { w with calls, store := { w.store with meta := some m } }
    simp [hv] at h
    obtain ⟨-, rfl⟩ := h
    exact hloaded _ (.inl rfl) _ _ ⟨[], (List.append_nil _).symm⟩ calls
  simp only [verifyPassword_run (c := ⟨m.argon2Params, salt, none⟩) hu _ _ _] at h
  cases hv : opensToMagic P ((⟨m.argon2Params, salt, none⟩ : Crypto).derivedKey P password) m.verification
  · simp [hv] at h
    obtain ⟨-, rfl⟩ := h
    exact hloaded _ (.inl rfl) _ _ ⟨_, rfl⟩ calls
  simp only [hv, if_true, run_bind, unlock_run (c := ⟨m.argon2Params, salt, none⟩) hu _ _, modifyStore_run,
    now_run, run_onError] at h
  split at h
  · cases h
  · rename_i e w₁ hl
    rcases @loadData_cases env _ with ⟨d, -, hl'⟩ | ⟨e', hl'⟩ <;> rw [hl'] at hl <;> cases hl
    simp [lock_run] at h
    obtain ⟨-, rfl⟩ := h
    exact hloaded none (.inr rfl) _ _ ⟨_, modify_append_right _ _ _ 1⟩ _
  · rename_i f w₁ hne hl
    rcases @loadData_cases env _ with ⟨d, -, hl'⟩ | ⟨e', hl'⟩ <;> rw [hl'] at hl <;> cases hl
    exact absurd rfl (hne _)

end OmniVault.Store
