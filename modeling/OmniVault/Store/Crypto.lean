import OmniVault.Store.World

/-!
`crypto.go`: a `Crypto` session's operations. `DeriveKey` runs `argon2.IDKey`
into a new key buffer, which panics on fewer than one round or one thread;
`Lock` overwrites the buffer with zeros; `Encrypt` and `Decrypt` check the key
size as `aes.NewCipher` does and use a 12-byte nonce, written in front of the
sealed text, the whole in standard base64. `VerifyPassword` derives a key
into a temporary buffer and zeroes it before returning.
-/

namespace OmniVault.Store

section

variable (P : Primitives) (env : Env)

/-- `NewCrypto(salt, params)`: a nil salt is replaced by 32 random bytes. -/
def newCrypto (salt : Option Bytes) (params : Argon2Params) : StoreM Crypto := do
  let salt ← match salt with
    | none => wrapErr (.ofString "failed to generate salt") (randRead env 32)
    | some s => pure s
  if salt.length < 16 then fail "salt must be at least 16 bytes"
  pure ⟨params, salt, none⟩

/-- `c.DeriveKey(password)`. -/
def Crypto.deriveKey (c : Crypto) (password : Bytes) : StoreM Nat := do
  if c.params.time < 1 then goPanic "argon2: number of rounds too small"
  if c.params.threads < 1 then goPanic "argon2: parallelism degree too low"
  allocKey (P.idKey password c.salt c.params.time c.params.memory c.params.threads c.params.keyLen)

/-- `c.Unlock(password)`: a key it replaces is not zeroed. -/
def Crypto.unlock (c : Crypto) (password : Bytes) : StoreM Crypto := do
  let k ← c.deriveKey P password
  pure { c with key := some k }

/-- `c.Lock()`. -/
def Crypto.lock (c : Crypto) : StoreM Crypto := do
  if let some k := c.key then zeroKey k
  pure { c with key := none }

/-- `c.IsUnlocked()`. -/
def Crypto.isUnlocked (c : Crypto) : Bool := c.key.isSome

/-- The error `Encrypt` and `Decrypt` return when `aes.NewCipher` refuses the key. -/
def cipherError (key : Bytes) : Fault :=
  .error (.wrap (.ofString "failed to create cipher") (.text (keySizeError key)))

/-- The text `Encrypt` writes: the nonce, then the sealed plaintext, in base64. -/
def sealedText (key nonce plaintext : Bytes) : Bytes :=
  Base64.encode (nonce ++ P.gcmSeal key nonce plaintext)

/-- `c.Encrypt(plaintext)`. -/
def Crypto.encrypt (c : Crypto) (plaintext : Bytes) : StoreM Bytes := do
  let some k := c.key | fail "vault is locked"
  let key ← keyBytes k
  unless aesKeySizeOk key do throw (cipherError key)
  let nonce ← wrapErr (.ofString "failed to generate nonce") (randRead env gcmNonceSize)
  pure (sealedText P key nonce plaintext)

/-- `c.Decrypt(encoded)`. -/
def Crypto.decrypt (c : Crypto) (encoded : Bytes) : StoreM Bytes := do
  let some k := c.key | fail "vault is locked"
  let some ciphertext := Base64.decode encoded
    | throw (.error (.wrap (.ofString "failed to decode ciphertext") (.lib (.ofString "encoding/base64"))))
  let key ← keyBytes k
  unless aesKeySizeOk key do throw (cipherError key)
  if ciphertext.length < gcmNonceSize then fail "ciphertext too short"
  let some plaintext := P.gcmOpen key (ciphertext.take gcmNonceSize) (ciphertext.drop gcmNonceSize)
    | throw (.error (.wrap (.ofString "failed to decrypt") (.text gcmOpenError)))
  pure plaintext

/-- `c.EncryptString(plaintext)`: a Go string is its bytes. -/
def Crypto.encryptString (c : Crypto) (plaintext : Bytes) : StoreM Bytes := c.encrypt P env plaintext

/-- `c.DecryptString(encoded)`. -/
def Crypto.decryptString (c : Crypto) (encoded : Bytes) : StoreM Bytes := c.decrypt P encoded

/-- Whether `key` opens `blob` to `verificationMagic`, as `VerifyPassword`
checks it once the key is derived. -/
def opensToMagic (key blob : Bytes) : Bool :=
  match Base64.decode blob with
  | none => false
  | some ciphertext =>
    aesKeySizeOk key && gcmNonceSize ≤ ciphertext.length &&
      P.gcmOpen key (ciphertext.take gcmNonceSize) (ciphertext.drop gcmNonceSize) == some verificationMagic

/-- `c.VerifyPassword(password, blob)`. -/
def Crypto.verifyPassword (c : Crypto) (password blob : Bytes) : StoreM Bool := do
  let k ← c.deriveKey P password
  let key ← keyBytes k
  zeroKey k
  pure (opensToMagic P key blob)

/-- `c.CreateVerificationBlob()`. -/
def Crypto.createVerificationBlob (c : Crypto) : StoreM Bytes := c.encryptString P env verificationMagic

end

/-! ## What each operation does -/

section Spec

variable {P : Primitives} {env : Env}

/-- The key `DeriveKey` derives for a password. -/
def Crypto.derivedKey (P : Primitives) (c : Crypto) (password : Bytes) : Bytes :=
  P.idKey password c.salt c.params.time c.params.memory c.params.threads c.params.keyLen

/-- Parameters `argon2.IDKey` accepts without panicking. -/
def Argon2Params.Usable (p : Argon2Params) : Prop := 1 ≤ p.time ∧ 1 ≤ p.threads

@[simp] theorem defaultArgon2Params_keyLen : defaultArgon2Params.keyLen = 32 := rfl

theorem defaultArgon2Params_usable : defaultArgon2Params.Usable := by
  simp [Argon2Params.Usable, defaultArgon2Params]

theorem deriveKey_run {c : Crypto} (hc : c.params.Usable) (password : Bytes) (w : World) :
    (c.deriveKey P password).run w =
      .ok w.keys.length { w with keys := w.keys ++ [⟨c.derivedKey P password, false⟩] } := by
  obtain ⟨ht, hth⟩ := hc
  simp [Crypto.deriveKey, Nat.not_lt.mpr ht, Nat.not_lt.mpr hth, allocKey, Crypto.derivedKey]

theorem deriveKey_run_unusable {c : Crypto} (hc : ¬ c.params.Usable) (password : Bytes) (w : World) :
    ∃ msg, (c.deriveKey P password).run w = .error (.panic msg) w := by
  by_cases ht : c.params.time < 1
  · exact ⟨.ofString "argon2: number of rounds too small", by simp [Crypto.deriveKey, ht, goPanic]⟩
  · have hth : c.params.threads < 1 := by
      simp only [Argon2Params.Usable, not_and_or, Nat.not_le] at hc
      omega
    exact ⟨.ofString "argon2: parallelism degree too low", by simp [Crypto.deriveKey, ht, hth, goPanic]⟩

theorem unlock_run {c : Crypto} (hc : c.params.Usable) (password : Bytes) (w : World) :
    (c.unlock P password).run w =
      .ok { c with key := some w.keys.length }
        { w with keys := w.keys ++ [⟨c.derivedKey P password, false⟩] } := by
  simp [Crypto.unlock, deriveKey_run hc]

/-- The key of buffer `k`. -/
def World.key (w : World) (k : Nat) : Bytes := (w.keys.getD k ⟨[], true⟩).bytes

/-- A key is read from the key buffers alone. -/
@[simp] theorem World.key_mk (w : World) (store : EncryptedStore) (disk : Disk) (calls k : Nat) :
    ({ store, disk, keys := w.keys, calls } : World).key k = w.key k := rfl

/-- The key of the buffer just made. -/
@[simp] theorem World.key_append_self (store : EncryptedStore) (disk : Disk) (keys : List KeyBuffer)
    (b : KeyBuffer) (calls : Nat) :
    ({ store, disk, keys := keys ++ [b], calls } : World).key keys.length = b.bytes := by
  simp [World.key]

/-- The key of the second of two buffers just made. -/
@[simp] theorem World.key_append_pair (store : EncryptedStore) (disk : Disk) (keys : List KeyBuffer)
    (a b : KeyBuffer) (calls : Nat) :
    ({ store, disk, keys := keys ++ [a, b], calls } : World).key (keys.length + 1) = b.bytes := by
  simp [World.key, List.getElem_append_right]

/-- Making buffers leaves the keys of the ones there before. -/
theorem World.key_append_of_lt {w w' : World} {bs : List KeyBuffer} (hk' : w'.keys = w.keys ++ bs) {k : Nat}
    (hk : k < w.keys.length) : w'.key k = w.key k := by
  simp [World.key, hk', List.getElem?_append_left hk]

theorem derivedKey_length (hP : P.Lawful) (c : Crypto) (password : Bytes) :
    (c.derivedKey P password).length = c.params.keyLen :=
  hP.idKey_length ..

theorem keyBytes_run (k : Nat) (w : World) : (keyBytes k).run w = .ok (w.key k) w := rfl

/-- The nonce of `rand.Read` at call `i`. -/
def Env.nonce (env : Env) (i : Nat) : Bytes := env.randBytes i gcmNonceSize

/-- The salt `NewCrypto` draws at call `i`. -/
def Env.salt (env : Env) (i : Nat) : Bytes := env.randBytes i 32

theorem newCrypto_run_fresh {w : World} (hrand : env.randFails w.calls = false) (params : Argon2Params) :
    (newCrypto env none params).run w = .ok ⟨params, env.salt w.calls, none⟩ { w with calls := w.calls + 1 } := by
  simp [newCrypto, randRead_run, hrand, Env.salt]

theorem newCrypto_run_randFails {w : World} (hrand : env.randFails w.calls = true) (params : Argon2Params) :
    (newCrypto env none params).run w =
      .error (.error (.wrap (.ofString "failed to generate salt") (.lib (.ofString "crypto/rand"))))
        { w with calls := w.calls + 1 } := by
  simp [newCrypto, randRead_run, hrand]

theorem newCrypto_run_salt {salt : Bytes} (hs : 16 ≤ salt.length) (params : Argon2Params) (w : World) :
    (newCrypto env (some salt) params).run w = .ok ⟨params, salt, none⟩ w := by
  simp [newCrypto, Nat.not_lt.mpr hs]

/-- Every way `NewCrypto` ends: an error, or a locked session of the given
parameters; only the call count changes. -/
theorem newCrypto_cases (salt : Option Bytes) (params : Argon2Params) (w : World) :
    (∃ e calls, (newCrypto env salt params).run w = .error (.error e) { w with calls }) ∨
      ∃ salt' calls, (newCrypto env salt params).run w = .ok ⟨params, salt', none⟩ { w with calls } := by
  rcases salt with _ | s
  · cases hr : env.randFails w.calls
    · exact .inr ⟨_, _, newCrypto_run_fresh hr params⟩
    · exact .inl ⟨_, _, newCrypto_run_randFails hr params⟩
  · by_cases hs : 16 ≤ s.length
    · exact .inr ⟨s, w.calls, newCrypto_run_salt hs params w⟩
    · exact .inl ⟨.text (.ofString "salt must be at least 16 bytes"), w.calls,
        by simp [newCrypto, Nat.lt_of_not_le hs]⟩

/-- `VerifyPassword` leaves a zeroed buffer behind and answers whether the
derived key opens the blob. -/
theorem verifyPassword_run {c : Crypto} (hc : c.params.Usable) (password blob : Bytes) (w : World) :
    (c.verifyPassword P password blob).run w =
      .ok (opensToMagic P (c.derivedKey P password) blob)
        { w with keys := w.keys ++ [⟨(c.derivedKey P password).map fun _ => 0, true⟩] } := by
  simp [Crypto.verifyPassword, deriveKey_run hc, keyBytes_run, zeroKey, World.key, modify_append_length]

theorem verifyPassword_run_unusable {c : Crypto} (hc : ¬ c.params.Usable) (password blob : Bytes) (w : World) :
    ∃ msg, (c.verifyPassword P password blob).run w = .error (.panic msg) w := by
  obtain ⟨msg, h⟩ := deriveKey_run_unusable (P := P) hc password w
  exact ⟨msg, by simp [Crypto.verifyPassword, h]⟩

theorem nonce_length (env : Env) (i : Nat) : (env.nonce i).length = gcmNonceSize :=
  env.randBytes_length ..

theorem salt_length (env : Env) (i : Nat) : (env.salt i).length = 32 :=
  env.randBytes_length ..

/-- `Encrypt` under an accepted key, when `rand.Read` does not fail. -/
theorem encrypt_run {c : Crypto} {k : Nat} (hk : c.key = some k) {w : World}
    (hsize : aesKeySizeOk (w.key k)) (hrand : env.randFails w.calls = false) (plaintext : Bytes) :
    (c.encrypt P env plaintext).run w =
      .ok (sealedText P (w.key k) (env.nonce w.calls) plaintext) { w with calls := w.calls + 1 } := by
  simp [Crypto.encrypt, hk, keyBytes_run, hsize, wrapErr, randRead, nextCall, hrand, Env.nonce]

theorem encrypt_run_randFails {c : Crypto} {k : Nat} (hk : c.key = some k) {w : World}
    (hsize : aesKeySizeOk (w.key k)) (hrand : env.randFails w.calls = true) (plaintext : Bytes) :
    (c.encrypt P env plaintext).run w =
      .error (.error (.wrap (.ofString "failed to generate nonce") (.lib (.ofString "crypto/rand"))))
        { w with calls := w.calls + 1 } := by
  simp [Crypto.encrypt, hk, keyBytes_run, hsize, randRead_run, hrand]

/-- `Decrypt` inverts `Encrypt` under the same key. -/
theorem decrypt_sealedText (hP : P.Lawful) {c : Crypto} {k : Nat} (hk : c.key = some k) {w : World}
    (hsize : aesKeySizeOk (w.key k)) {nonce : Bytes} (hnonce : nonce.length = gcmNonceSize)
    (plaintext : Bytes) :
    (c.decrypt P (sealedText P (w.key k) nonce plaintext)).run w = .ok plaintext w := by
  have hlen : ¬ nonce.length + (P.gcmSeal (w.key k) nonce plaintext).length < gcmNonceSize := by
    omega
  simp [Crypto.decrypt, hk, sealedText, Base64.decode_encode, keyBytes_run, hsize, hlen,
    List.take_left' hnonce, List.drop_left' hnonce, hP.open_seal]

/-- Under lawful primitives only the key that sealed the verification blob
opens it, among keys of its length. -/
theorem eq_of_opensToMagic (hP : P.Lawful) {key key' nonce : Bytes} (hlen : key'.length = key.length)
    (hn : nonce.length = gcmNonceSize) (h : opensToMagic P key' (sealedText P key nonce verificationMagic)) :
    key' = key := by
  by_contra hne
  simp [opensToMagic, sealedText, Base64.decode_encode, List.take_left' hn, List.drop_left' hn,
    hP.open_seal_ne key key' nonce _ hlen.symm (Ne.symm hne)] at h

/-- `Decrypt` reads the key buffers and changes nothing. -/
theorem decrypt_world (c : Crypto) (encoded : Bytes) (w : World) :
    resultWorld ((c.decrypt P encoded).run w) = w := by
  unfold Crypto.decrypt
  rcases c.key with _ | k
  · rfl
  rcases Base64.decode encoded with _ | ct
  · rfl
  simp only [run_bind, keyBytes_run]
  split_ifs <;> simp
  split <;> rfl

theorem lock_run (c : Crypto) (w : World) :
    (c.lock).run w = .ok { c with key := none }
      (match c.key with
        | some k => { w with keys := w.keys.modify (fun b => ⟨b.bytes.map fun _ => 0, true⟩) k }
        | none => w) := by
  cases h : c.key <;> simp [Crypto.lock, h, zeroKey]

/-! ## Opening a ciphertext -/

/-- What `Decrypt` returns under `key`: the text decoded from base64, cut at
the nonce size and opened, or `none` at any of its failures. -/
def openText (P : Primitives) (key encoded : Bytes) : Option Bytes := do
  let ciphertext ← Base64.decode encoded
  if aesKeySizeOk key ∧ gcmNonceSize ≤ ciphertext.length then
    P.gcmOpen key (ciphertext.take gcmNonceSize) (ciphertext.drop gcmNonceSize)
  else none

/-- `Decrypt` returns exactly what `openText` opens under the session's key. -/
theorem decrypt_run_ok_iff {c : Crypto} {k : Nat} (hk : c.key = some k) (encoded plaintext : Bytes) (w : World) :
    (c.decrypt P encoded).run w = .ok plaintext w ↔ openText P (w.key k) encoded = some plaintext := by
  unfold Crypto.decrypt openText
  rcases Base64.decode encoded with _ | ct
  · simp [hk]
  by_cases hsize : aesKeySizeOk (w.key k) <;> by_cases hlen : gcmNonceSize ≤ ct.length
  · simp only [hk, run_bind, keyBytes_run, hsize, Nat.not_lt.mpr hlen]
    rcases h : P.gcmOpen (w.key k) (ct.take gcmNonceSize) (ct.drop gcmNonceSize) <;> simp [h, hlen]
  all_goals simp [hk, keyBytes_run, hsize, hlen, cipherError, Nat.lt_of_not_le]

/-- `Decrypt` returns only under a key, what `openText` opens, with nothing changed. -/
theorem decrypt_run_ok_inv {c : Crypto} {e pt : Bytes} {w w' : World} (h : (c.decrypt P e).run w = .ok pt w') :
    w' = w ∧ ∃ k, c.key = some k ∧ openText P (w.key k) e = some pt := by
  have hw := decrypt_world (P := P) c e w
  rw [h, resultWorld_ok] at hw
  subst hw
  rcases hk : c.key with _ | k
  · simp [Crypto.decrypt, hk] at h
  exact ⟨rfl, k, rfl, (decrypt_run_ok_iff hk e pt _).mp h⟩

/-- `VerifyPassword`'s own decoding is `openText` compared with the magic. -/
theorem opensToMagic_eq_openText (key blob : Bytes) :
    opensToMagic P key blob = (openText P key blob == some verificationMagic) := by
  unfold opensToMagic openText
  rcases Base64.decode blob with _ | ct
  · rfl
  by_cases h : aesKeySizeOk key ∧ gcmNonceSize ≤ ct.length
  · simp [h.1, h.2, h]
  · rcases not_and_or.mp h with h' | h' <;> simp [h', h]

theorem openText_sealedText (hP : P.Lawful) {key nonce : Bytes} (hsize : aesKeySizeOk key)
    (hn : nonce.length = gcmNonceSize) (plaintext : Bytes) :
    openText P key (sealedText P key nonce plaintext) = some plaintext := by
  simp [openText, sealedText, Base64.decode_encode, hsize, hn, List.take_left' hn, List.drop_left' hn,
    hP.open_seal]

/-- A cipher that commits to its key opens nothing sealed under another key. -/
theorem openText_sealedText_ne (hb : P.KeyBound) {key key' nonce : Bytes} (hne : key ≠ key')
    (hn : nonce.length = gcmNonceSize) (plaintext : Bytes) :
    openText P key' (sealedText P key nonce plaintext) = none := by
  simp [openText, sealedText, Base64.decode_encode, List.take_left' hn, List.drop_left' hn,
    hb key key' nonce plaintext hne]

/-- `Unlock` returns only with parameters `IDKey` accepts, and then holds the derived key. -/
theorem unlock_run_ok {c c' : Crypto} {password : Bytes} {w w' : World}
    (h : (c.unlock P password).run w = .ok c' w') :
    c.params.Usable ∧ c' = { c with key := some w.keys.length } ∧
      w' = { w with keys := w.keys ++ [⟨c.derivedKey P password, false⟩] } := by
  by_cases hu : c.params.Usable
  · rw [unlock_run hu] at h
    cases h
    exact ⟨hu, rfl, rfl⟩
  · exfalso
    by_cases ht : c.params.time < 1
    · simp [Crypto.unlock, Crypto.deriveKey, ht, goPanic] at h
    · have hth : c.params.threads < 1 := by simp only [Argon2Params.Usable] at hu; omega
      simp [Crypto.unlock, Crypto.deriveKey, ht, hth, goPanic] at h

/-- `Decrypt` changes nothing, so it fails whenever `openText` does. -/
theorem decrypt_value_none {c : Crypto} {k : Nat} (hk : c.key = some k) {encoded : Bytes} {w : World}
    (h : openText P (w.key k) encoded = none) : resultValue ((c.decrypt P encoded).run w) = none := by
  have hw := decrypt_world (P := P) c encoded w
  rcases hr : (c.decrypt P encoded).run w with ⟨pt, w₁⟩ | ⟨f, w₁⟩
  · rw [hr, resultWorld_ok] at hw
    subst hw
    rw [(decrypt_run_ok_iff hk encoded pt _).mp hr] at h
    cases h
  · rfl

/-- `Decrypt` inverts `Encrypt` for a session unlocked with any password and a
key length AES accepts: `Encrypt` writes the nonce and the sealed text in
base64, `Decrypt` and `DecryptString` split the nonce off again and return
the plaintext, and a session holding any other key fails to decrypt it. -/
theorem decrypt_encrypt (hP : P.Lawful) (hb : P.KeyBound) {c c' : Crypto} {password : Bytes}
    {w w' : World} (hkeyLen : c.params.keyLen = 16 ∨ c.params.keyLen = 24 ∨ c.params.keyLen = 32)
    (hunlock : (c.unlock P password).run w = .ok c' w') (hrand : env.randFails w'.calls = false)
    (plaintext : Bytes) :
    let key := c.derivedKey P password
    let w'' : World := { w' with calls := w'.calls + 1 }
    ∃ nonce, nonce.length = gcmNonceSize ∧
      (c'.encrypt P env plaintext).run w' = .ok (Base64.encode (nonce ++ P.gcmSeal key nonce plaintext)) w'' ∧
      (Base64.decode (Base64.encode (nonce ++ P.gcmSeal key nonce plaintext))).map (·.take gcmNonceSize) =
        some nonce ∧
      (c'.decrypt P (Base64.encode (nonce ++ P.gcmSeal key nonce plaintext))).run w'' = .ok plaintext w'' ∧
      (c'.decryptString P (Base64.encode (nonce ++ P.gcmSeal key nonce plaintext))).run w'' =
        .ok plaintext w'' ∧
      ∀ (d : Crypto) (j : Nat), d.key = some j → w''.key j ≠ key →
        resultValue ((d.decrypt P (Base64.encode (nonce ++ P.gcmSeal key nonce plaintext))).run w'') = none := by
  obtain ⟨-, rfl, hw'⟩ := unlock_run_ok hunlock
  have hkey : w'.key w.keys.length = c.derivedKey P password := by simp [hw', World.key]
  have hsize : aesKeySizeOk (c.derivedKey P password) := by
    simp only [aesKeySizeOk, derivedKey_length hP]
    rcases hkeyLen with h | h | h <;> simp [h]
  have henc := @encrypt_run P env { c with key := some w.keys.length } _ rfl w'
    (by rw [hkey]; exact hsize) hrand plaintext
  rw [hkey] at henc
  have hn := nonce_length env w'.calls
  have hopen := (decrypt_run_ok_iff (P := P) (c := { c with key := some w.keys.length }) rfl _ plaintext
    { w' with calls := w'.calls + 1 }).mpr (by rw [World.key_mk, hkey]; exact openText_sealedText hP hsize hn plaintext)
  refine ⟨env.nonce w'.calls, hn, henc, by simp [Base64.decode_encode, List.take_left' hn], hopen, hopen,
    fun d j hd hj => decrypt_value_none hd ?_⟩
  exact openText_sealedText_ne hb (Ne.symm hj) hn plaintext

/-- A session of the default parameters unlocked with "hunter2" seals and opens "s3cret". -/
theorem decrypt_encrypt_sample :
    let c : Crypto := ⟨defaultArgon2Params, List.replicate 16 7, none⟩
    let P := Primitives.tagged
    let env := Env.reliable Time.zero
    let key := c.derivedKey P (.ofString "hunter2")
    let plaintext := Bytes.ofString "s3cret"
    let w' : World := { keys := [⟨key, false⟩] }
    let w'' : World := { w' with calls := w'.calls + 1 }
    P.Lawful ∧ P.KeyBound ∧ (c.params.keyLen = 16 ∨ c.params.keyLen = 24 ∨ c.params.keyLen = 32) ∧
      (c.unlock P (.ofString "hunter2")).run {} = .ok { c with key := some 0 } w' ∧
      env.randFails w'.calls = false ∧
      ∃ nonce, nonce.length = gcmNonceSize ∧
        ({ c with key := some 0 }.encrypt P env plaintext).run w' =
          .ok (Base64.encode (nonce ++ P.gcmSeal key nonce plaintext)) w'' ∧
        (Base64.decode (Base64.encode (nonce ++ P.gcmSeal key nonce plaintext))).map (·.take gcmNonceSize) =
          some nonce ∧
        ({ c with key := some 0 }.decrypt P (Base64.encode (nonce ++ P.gcmSeal key nonce plaintext))).run w'' =
          .ok plaintext w'' ∧
        ({ c with key := some 0 }.decryptString P (Base64.encode (nonce ++ P.gcmSeal key nonce plaintext))).run
          w'' = .ok plaintext w'' ∧
        ∀ (d : Crypto) (j : Nat), d.key = some j → w''.key j ≠ key →
          resultValue ((d.decrypt P (Base64.encode (nonce ++ P.gcmSeal key nonce plaintext))).run w'') = none :=
  ⟨Primitives.tagged_lawful, Primitives.tagged_keyBound, .inr (.inr rfl), unlock_run defaultArgon2Params_usable _ _,
    rfl, @decrypt_encrypt Primitives.tagged (Env.reliable Time.zero) Primitives.tagged_lawful
      Primitives.tagged_keyBound ⟨defaultArgon2Params, List.replicate 16 7, none⟩
      ⟨defaultArgon2Params, List.replicate 16 7, some 0⟩ (.ofString "hunter2") {} _ (.inr (.inr rfl))
      (unlock_run defaultArgon2Params_usable _ _) rfl (.ofString "s3cret")⟩

/-- `Encrypt` returns only under an accepted key, and then the sealed text of a fresh nonce. -/
theorem encrypt_run_ok {c : Crypto} {plaintext ct : Bytes} {w w' : World}
    (h : (c.encrypt P env plaintext).run w = .ok ct w') :
    ∃ k, c.key = some k ∧ aesKeySizeOk (w.key k) ∧
      ct = sealedText P (w.key k) (env.nonce w.calls) plaintext ∧ w' = { w with calls := w.calls + 1 } := by
  rcases hk : c.key with _ | k
  · simp [Crypto.encrypt, hk] at h
  by_cases hsize : aesKeySizeOk (w.key k)
  · cases hrand : env.randFails w.calls
    · rw [encrypt_run hk hsize hrand] at h
      cases h
      exact ⟨k, rfl, hsize, rfl, rfl⟩
    · rw [encrypt_run_randFails hk hsize hrand] at h
      cases h
  · simp [Crypto.encrypt, hk, keyBytes_run, hsize, cipherError] at h

/-- What `Decrypt` returns under a session's key is what `openText` opens. -/
theorem resultValue_decrypt {c : Crypto} {k : Nat} (hk : c.key = some k) (encoded : Bytes) (w : World) :
    resultValue ((c.decrypt P encoded).run w) = openText P (w.key k) encoded := by
  rcases h : (c.decrypt P encoded).run w with ⟨pt, w''⟩ | ⟨e, w''⟩
  · obtain ⟨rfl, k', hk', hopen⟩ := decrypt_run_ok_inv h
    rw [hk] at hk'
    cases hk'
    exact hopen.symm
  · rcases hopen : openText P (w.key k) encoded with _ | pt
    · rfl
    · rw [(decrypt_run_ok_iff hk encoded pt w).mpr hopen] at h
      cases h

/-- `VerifyPassword` returns a value, never a panic, and that value is whether
a session with the same salt and parameters, unlocked with the password,
decrypts the blob to the magic, on every blob, a truncated or malformed one
too; so it accepts every blob that session's `CreateVerificationBlob` makes. -/
theorem verifyPassword_iff_decrypt (hP : P.Lawful) {c c' : Crypto} {password : Bytes} {w w' : World}
    (hunlock : (c.unlock P password).run w = .ok c' w') :
    (∀ (blob : Bytes) (v : World),
      resultValue ((c.verifyPassword P password blob).run v) =
        some (resultValue ((c'.decrypt P blob).run w') == some verificationMagic) ∧
      (resultValue ((c'.decrypt P blob).run w') = some verificationMagic ↔
        (c'.decrypt P blob).run w' = .ok verificationMagic w')) ∧
    ∀ blob w'', (c'.createVerificationBlob P env).run w' = .ok blob w'' →
      resultValue ((c'.verifyPassword P password blob).run w'') = some true := by
  obtain ⟨hu, rfl, hw'⟩ := unlock_run_ok hunlock
  have hkey : w'.key w.keys.length = c.derivedKey P password := by simp [hw', World.key]
  have hdec (blob : Bytes) : resultValue ((({ c with key := some w.keys.length } : Crypto).decrypt P blob).run w') =
      openText P (c.derivedKey P password) blob := by
    rw [resultValue_decrypt rfl, hkey]
  refine ⟨fun blob v => ⟨?_, ?_⟩, fun blob w'' hblob => ?_⟩
  · rw [verifyPassword_run hu, hdec, opensToMagic_eq_openText]
    rfl
  · rw [hdec, decrypt_run_ok_iff rfl, hkey]
  · obtain ⟨k, hk, hsize, rfl, -⟩ := @encrypt_run_ok P env { c with key := some w.keys.length }
      verificationMagic blob w' w'' hblob
    cases hk
    rw [hkey] at hsize
    rw [verifyPassword_run (c := { c with key := some w.keys.length }) hu, hkey, opensToMagic_eq_openText]
    simp only [Crypto.derivedKey] at hsize ⊢
    rw [openText_sealedText hP hsize (nonce_length env w'.calls)]
    rfl

/-- A session of the default parameters unlocked with "hunter2". The blob
"AAAA" decodes to three bytes, too short to hold a nonce: `Decrypt` fails on
it and `VerifyPassword` answers false. -/
theorem verifyPassword_iff_decrypt_sample :
    let c : Crypto := ⟨defaultArgon2Params, List.replicate 16 7, none⟩
    let pw := Bytes.ofString "hunter2"
    let w' : World := { keys := [⟨c.derivedKey Primitives.standIn pw, false⟩] }
    Primitives.standIn.Lawful ∧ (c.unlock Primitives.standIn pw).run {} = .ok { c with key := some 0 } w' ∧
      (∀ (blob : Bytes) (v : World),
        resultValue ((c.verifyPassword Primitives.standIn pw blob).run v) =
          some (resultValue (({ c with key := some 0 }.decrypt Primitives.standIn blob).run w') ==
            some verificationMagic) ∧
        (resultValue (({ c with key := some 0 }.decrypt Primitives.standIn blob).run w') = some verificationMagic ↔
          ({ c with key := some 0 }.decrypt Primitives.standIn blob).run w' = .ok verificationMagic w')) ∧
      (∀ blob w'', ({ c with key := some 0 }.createVerificationBlob Primitives.standIn (Env.reliable Time.zero)).run w' =
          .ok blob w'' →
        resultValue (({ c with key := some 0 }.verifyPassword Primitives.standIn pw blob).run w'') = some true) ∧
      resultValue (({ c with key := some 0 }.decrypt Primitives.standIn (.ofString "AAAA")).run w') = none ∧
      resultValue ((c.verifyPassword Primitives.standIn pw (.ofString "AAAA")).run {}) = some false :=
  have h := @verifyPassword_iff_decrypt Primitives.standIn (Env.reliable Time.zero) Primitives.standIn_lawful
    ⟨defaultArgon2Params, List.replicate 16 7, none⟩ ⟨defaultArgon2Params, List.replicate 16 7, some 0⟩
    (.ofString "hunter2") {} _ (unlock_run defaultArgon2Params_usable _ _)
  have htrunc : resultValue (((⟨defaultArgon2Params, List.replicate 16 7, some 0⟩ : Crypto).decrypt
      Primitives.standIn (.ofString "AAAA")).run { keys := [⟨(⟨defaultArgon2Params, List.replicate 16 7, none⟩ :
        Crypto).derivedKey Primitives.standIn (.ofString "hunter2"), false⟩] }) = none := by decide
  ⟨Primitives.standIn_lawful, unlock_run defaultArgon2Params_usable _ _, h.1, h.2, htrunc,
    (h.1 _ {}).1.trans (by decide)⟩

end Spec

/-! ## What the session's operations leave alone

None of them touches the store or the files: each counts calls to the
operating system and makes or zeroes key buffers, and no more. -/

section Framed

variable {P : Primitives} {env : Env}

/-- A session `NewCrypto` returns is locked, of the given parameters, and of a
salt of at least 16 bytes. -/
theorem newCrypto_run_ok_inv {salt : Option Bytes} {params : Argon2Params} {w w' : World} {c : Crypto}
    (h : (newCrypto env salt params).run w = .ok c w') : c.params = params ∧ c.key = none ∧ 16 ≤ c.salt.length := by
  rcases salt with _ | s
  · cases hr : env.randFails w.calls
    · rw [newCrypto_run_fresh hr] at h
      cases h
      exact ⟨rfl, rfl, by simp [salt_length]⟩
    · rw [newCrypto_run_randFails hr] at h
      cases h
  · by_cases hs : 16 ≤ s.length
    · rw [newCrypto_run_salt hs] at h
      cases h
      exact ⟨rfl, rfl, hs⟩
    · simp [newCrypto, Nat.lt_of_not_le hs] at h

theorem framed_newCrypto (salt : Option Bytes) (params : Argon2Params) :
    Framed (newCrypto env salt params) fun c => c.params = params ∧ c.key = none ∧ 16 ≤ c.salt.length where
  frame w := by
    rcases newCrypto_cases salt params w with ⟨e, calls, h⟩ | ⟨s, calls, h⟩ <;> rw [h] <;> exact ⟨rfl, rfl⟩
  post _ _ _ h := newCrypto_run_ok_inv h

theorem framed_deriveKey (c : Crypto) (password : Bytes) : Framed (c.deriveKey P password) fun _ => True where
  frame w := by
    by_cases hc : c.params.Usable
    · rw [deriveKey_run hc]
      exact ⟨rfl, rfl⟩
    · obtain ⟨msg, h⟩ := deriveKey_run_unusable (P := P) hc password w
      rw [h]
      exact ⟨rfl, rfl⟩
  post _ _ _ _ := trivial

theorem framed_unlock (c : Crypto) (password : Bytes) :
    Framed (c.unlock P password) fun c' => c'.params = c.params ∧ c'.salt = c.salt :=
  (framed_deriveKey c password).bind fun _ _ => (framed_pure _).mono fun _ h => h ▸ ⟨rfl, rfl⟩

theorem framed_lock (c : Crypto) : Framed c.lock fun _ => True :=
  ⟨fun w => by rw [lock_run]; split <;> exact ⟨rfl, rfl⟩, fun _ _ _ _ => trivial⟩

theorem framed_verifyPassword (c : Crypto) (password blob : Bytes) :
    Framed (c.verifyPassword P password blob) fun _ => True := by
  unfold Crypto.verifyPassword
  exact (framed_deriveKey c password).bind fun _ _ => (framed_keyBytes _).bind fun _ _ =>
    (framed_zeroKey _).bind fun _ _ => (framed_pure _).mono fun _ _ => trivial

theorem framed_encrypt (c : Crypto) (plaintext : Bytes) :
    Framed (c.encrypt P env plaintext) fun b => ∃ key nonce, b = sealedText P key nonce plaintext where
  frame w := by
    rcases hk : c.key with _ | k
    · simp [Crypto.encrypt, hk]
    by_cases hsize : aesKeySizeOk (w.key k)
    · cases hr : env.randFails w.calls
      · rw [encrypt_run hk hsize hr]
        exact ⟨rfl, rfl⟩
      · rw [encrypt_run_randFails hk hsize hr]
        exact ⟨rfl, rfl⟩
    · simp [Crypto.encrypt, hk, keyBytes_run, hsize]
  post w b w' h := by
    obtain ⟨k, -, -, rfl, -⟩ := encrypt_run_ok h
    exact ⟨_, _, rfl⟩

theorem framed_createVerificationBlob (c : Crypto) :
    Framed (c.createVerificationBlob P env) fun b => ∃ key nonce, b = sealedText P key nonce verificationMagic :=
  framed_encrypt c _

theorem framed_decrypt (c : Crypto) (encoded : Bytes) : Framed (c.decrypt P encoded) fun _ => True :=
  ⟨fun w => by rw [decrypt_world]; exact ⟨rfl, rfl⟩, fun _ _ _ _ => trivial⟩

/-- The handlers of `Initialize` and `ChangePassword`: lock the new session and fail. -/
theorem framed_lock_throw (c : Crypto) (f : Fault) {α : Type} {Q : α → Prop} :
    Framed (do let _ ← c.lock; throw f : StoreM α) Q :=
  (framed_lock c).bind fun _ _ => framed_throw f

end Framed

end OmniVault.Store
