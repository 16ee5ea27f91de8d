import OmniVault.Go.Strconv

/-!
The cryptographic primitives `crypto.go` calls, taken as parameters:
`argon2.IDKey`, and AES-GCM's `Seal` and `Open` under a key that
`aes.NewCipher` accepts. `Primitives.Lawful` states what the store relies on:
the key has the length asked for, `Open` inverts `Seal` under the same key and
nonce, opens nothing else, and fails under any other key of the same length.
This is AES-GCM as an ideal authenticated cipher. The store's own checks
around them (key sizes, nonce size, panics of `IDKey`) are modelled in
`OmniVault.Store.Crypto`.

`Primitives.standIn` is a computable instance that satisfies the laws; the
concrete runs are evaluated with it. It offers no secrecy, which no theorem
here is about.
-/

namespace OmniVault.Store

/-- `store.Argon2Params`: `Time`, `Memory` and `KeyLen` are `uint32`,
`Threads` a `uint8`. -/
structure Argon2Params where
  time : Nat
  memory : Nat
  threads : Nat
  keyLen : Nat
  deriving DecidableEq, Repr

/-- `DefaultArgon2Params`. -/
def defaultArgon2Params : Argon2Params := ⟨3, 65536, 4, 32⟩

/-- `verificationMagic`. -/
def verificationMagic : Bytes := Bytes.ofString "omnivault-v1"

/-- `gcm.NonceSize()` for the standard GCM `cipher.NewGCM` returns. -/
def gcmNonceSize : Nat := 12

/-- The key lengths `aes.NewCipher` accepts: AES-128, AES-192, AES-256. -/
def aesKeySizeOk (key : Bytes) : Bool := key.length = 16 || key.length = 24 || key.length = 32

/-- The text of `aes.KeySizeError`. -/
def keySizeError (key : Bytes) : Bytes :=
  Bytes.ofString "crypto/aes: invalid key size " ++ Strconv.formatInt key.length

/-- The text of the error `gcm.Open` returns when authentication fails. -/
def gcmOpenError : Bytes := Bytes.ofString "cipher: message authentication failed"

/-- `argon2.IDKey(password, salt, time, memory, threads, keyLen)` on
arguments it accepts, and `Seal` and `Open` of the GCM mode of AES under a
key, with a nonce, no additional data and no destination prefix. -/
structure Primitives where
  idKey : Bytes → Bytes → Nat → Nat → Nat → Nat → Bytes
  gcmSeal : Bytes → Bytes → Bytes → Bytes
  gcmOpen : Bytes → Bytes → Bytes → Option Bytes

/-- What the store relies on about its primitives. -/
structure Primitives.Lawful (P : Primitives) : Prop where
  idKey_length : ∀ pw salt t m th len, (P.idKey pw salt t m th len).length = len
  open_seal : ∀ key nonce plaintext, P.gcmOpen key nonce (P.gcmSeal key nonce plaintext) = some plaintext
  eq_seal_of_open : ∀ key nonce c m, P.gcmOpen key nonce c = some m → c = P.gcmSeal key nonce m
  open_seal_ne : ∀ key key' nonce plaintext, key.length = key'.length → key ≠ key' →
    P.gcmOpen key' nonce (P.gcmSeal key nonce plaintext) = none

/-- A computable instance of the laws: the key is the salt and the password
cut or padded to length, and a sealed text carries its key and nonce. -/
def Primitives.standIn : Primitives where
  idKey pw salt _ _ _ len := (salt ++ pw ++ List.replicate len 0).take len
  gcmSeal key nonce plaintext := key ++ nonce ++ plaintext
  gcmOpen key nonce c := if (key ++ nonce).isPrefixOf c then some (c.drop (key ++ nonce).length) else none

theorem Primitives.standIn_lawful : Primitives.standIn.Lawful where
  idKey_length pw salt _ _ _ len := by simp [standIn]; omega
  open_seal key nonce plaintext := by simp [standIn, List.isPrefixOf_iff_prefix]
  eq_seal_of_open key nonce c m h := by
    simp only [standIn] at h
    split at h
    · rename_i hpre
      obtain ⟨rest, rfl⟩ := List.isPrefixOf_iff_prefix.mp hpre
      cases h
      simp [standIn]
    · cases h
  open_seal_ne key key' nonce plaintext hlen hne := by
    simp only [standIn, List.append_assoc, ite_eq_right_iff, reduceCtorEq, imp_false,
      Bool.not_eq_true]
    rw [Bool.eq_false_iff, ne_eq, List.isPrefixOf_iff_prefix]
    rintro ⟨rest, hrest⟩
    apply hne
    have := congrArg (List.take key.length) hrest
    simp [hlen] at this
    exact this.symm

/-- `Open` fails under every key but the one that sealed, whatever its length:
AES-GCM as an ideal cipher that commits to its key. -/
def Primitives.KeyBound (P : Primitives) : Prop :=
  ∀ key key' nonce plaintext, key ≠ key' → P.gcmOpen key' nonce (P.gcmSeal key nonce plaintext) = none

/-- The key written so that no other key is a prefix of it: its length in
unary, a zero, then its bytes. -/
def keyTag (key : Bytes) : Bytes := List.replicate key.length 1 ++ 0 :: key

/-- A computable instance of the laws that also commits to its key: a sealed
text carries the key's tag and the nonce. -/
def Primitives.tagged : Primitives where
  idKey := Primitives.standIn.idKey
  gcmSeal key nonce plaintext := keyTag key ++ nonce ++ plaintext
  gcmOpen key nonce c :=
    if (keyTag key ++ nonce).isPrefixOf c then some (c.drop (keyTag key ++ nonce).length) else none

/-- Two unary lengths, each closed by a zero, agree when one text starts with the other. -/
theorem replicate_one_isPrefix :
    ∀ (a b : Nat) (x y : Bytes), List.replicate a 1 ++ 0 :: x <+: List.replicate b 1 ++ 0 :: y → a = b ∧ x <+: y
  | 0, 0, x, y, h => ⟨rfl, (List.prefix_cons_inj 0).mp h⟩
  | 0, b + 1, x, y, h => by simp [List.replicate_succ] at h
  | a + 1, 0, x, y, h => by simp [List.replicate_succ] at h
  | a + 1, b + 1, x, y, h => by
    have := replicate_one_isPrefix a b x y ((List.prefix_cons_inj 1).mp (by simpa [List.replicate_succ] using h))
    exact ⟨congrArg (· + 1) this.1, this.2⟩

theorem eq_of_keyTag_isPrefix {key key' t t' : Bytes} (h : keyTag key' ++ t' <+: keyTag key ++ t) : key' = key := by
  simp only [keyTag, List.append_assoc, List.cons_append] at h
  obtain ⟨hlen, hpre⟩ := replicate_one_isPrefix _ _ _ _ h
  have := congrArg (List.take key'.length) (List.prefix_iff_eq_take.mp hpre)
  simp only [List.take_left, List.length_append, List.take_take] at this
  rw [this, hlen, Nat.min_eq_left (Nat.le_add_right _ _), List.take_left]

theorem Primitives.tagged_keyBound : Primitives.tagged.KeyBound := by
  intro key key' nonce plaintext hne
  simp only [tagged, ite_eq_right_iff, reduceCtorEq, imp_false, Bool.not_eq_true, List.isPrefixOf_iff_prefix]
  exact fun h => hne (eq_of_keyTag_isPrefix (t := nonce ++ plaintext) (by simpa using h)).symm

theorem Primitives.tagged_lawful : Primitives.tagged.Lawful where
  idKey_length := standIn_lawful.idKey_length
  open_seal key nonce plaintext := by simp [tagged, List.isPrefixOf_iff_prefix]
  eq_seal_of_open key nonce c m h := by
    simp only [tagged] at h
    split at h
    · rename_i hpre
      obtain ⟨rest, rfl⟩ := List.isPrefixOf_iff_prefix.mp hpre
      cases h
      simp [tagged]
    · cases h
  open_seal_ne key key' nonce plaintext _ hne := tagged_keyBound key key' nonce plaintext hne

/-- Stand-in primitives whose derived key starts with the password, so that
another password derives another key. -/
def Primitives.passwordFirst : Primitives where
  idKey pw salt _ _ _ len := (pw ++ salt ++ List.replicate len 0).take len
  gcmSeal := Primitives.tagged.gcmSeal
  gcmOpen := Primitives.tagged.gcmOpen

theorem Primitives.passwordFirst_keyBound : Primitives.passwordFirst.KeyBound := tagged_keyBound

theorem Primitives.passwordFirst_lawful : Primitives.passwordFirst.Lawful where
  idKey_length pw salt _ _ _ len := by simp [passwordFirst]; omega
  open_seal := tagged_lawful.open_seal
  eq_seal_of_open := tagged_lawful.eq_seal_of_open
  open_seal_ne := tagged_lawful.open_seal_ne

end OmniVault.Store
