import OmniVault.Go.Utf8

/-!
`encoding/base64`'s `StdEncoding`: the standard alphabet with `=` padding.
The store writes every ciphertext, the metadata salt and every binary secret
value through it, and reads them back with `DecodeString`. The decoder is the
non-strict one Go uses by default: it skips `\r` and `\n`, requires padding,
accepts padding only in the final quantum, and ignores the unused low bits of
a padded quantum.
-/

namespace OmniVault.Base64

/-- `encodeStd`. -/
def alphabet : Bytes :=
  Bytes.ofString "ABCDEFGHIJKLMNOPQRSTUVWXYZabcdefghijklmnopqrstuvwxyz0123456789+/"

/-- `StdPadding`, the byte `=`. -/
def pad : UInt8 := 0x3D

def encodeChar (i : Nat) : UInt8 := alphabet.getD i 0

/-- The entry of the decoder's `decodeMap` for a byte: its index in the alphabet. -/
def decodeChar (c : UInt8) : Option Nat := alphabet.findIdx? (· == c)

/-- The four characters of one 24-bit quantum `val`. -/
def quantum (val : Nat) : Bytes :=
  [encodeChar (val / 2 ^ 18 % 64), encodeChar (val / 2 ^ 12 % 64),
    encodeChar (val / 2 ^ 6 % 64), encodeChar (val % 64)]

/-- `StdEncoding.EncodeToString`. -/
def encode : Bytes → Bytes
  | [] => []
  | [a] => (quantum (a.toNat * 2 ^ 16)).take 2 ++ [pad, pad]
  | [a, b] => (quantum (a.toNat * 2 ^ 16 + b.toNat * 2 ^ 8)).take 3 ++ [pad]
  | a :: b :: c :: rest => quantum (a.toNat * 2 ^ 16 + b.toNat * 2 ^ 8 + c.toNat) ++ encode rest

/-- The bytes of a decoded quantum with `n` of its three bytes present. -/
def quantumBytes (val n : Nat) : Bytes :=
  ([val / 2 ^ 16, val / 2 ^ 8 % 2 ^ 8, val % 2 ^ 8].map UInt8.ofNat).take n

/-- One quantum of four characters; padding is accepted only in the last one. -/
def decodeQuantum (c0 c1 c2 c3 : UInt8) (last : Bool) : Option Bytes := do
  let d0 ← decodeChar c0
  let d1 ← decodeChar c1
  match decodeChar c2, decodeChar c3 with
  | some d2, some d3 => some (quantumBytes (d0 * 2 ^ 18 + d1 * 2 ^ 12 + d2 * 2 ^ 6 + d3) 3)
  | some d2, none =>
    if last ∧ c3 = pad then some (quantumBytes (d0 * 2 ^ 18 + d1 * 2 ^ 12 + d2 * 2 ^ 6) 2)
    else none
  | none, _ =>
    if last ∧ c2 = pad ∧ c3 = pad then some (quantumBytes (d0 * 2 ^ 18 + d1 * 2 ^ 12) 1)
    else none

def decodeQuanta : Bytes → Option Bytes
  | [] => some []
  | c0 :: c1 :: c2 :: c3 :: rest => do
    let q ← decodeQuantum c0 c1 c2 c3 rest.isEmpty
    let r ← decodeQuanta rest
    pure (q ++ r)
  | _ => none

/-- `StdEncoding.DecodeString`, with its error as `none`. -/
def decode (s : Bytes) : Option Bytes :=
  decodeQuanta (s.filter fun c => c != 0x0D && c != 0x0A)

theorem decodeChar_encodeChar : ∀ i, i < 64 → decodeChar (encodeChar i) = some i := by
  decide

theorem pad_not_char : decodeChar pad = none := by decide

/-- Every character the encoder writes is ASCII and neither `\r` nor `\n`. -/
private theorem encodeChar_plain :
    ∀ i, i < 64 → (encodeChar i).toNat < 0x80 ∧ encodeChar i ≠ 0x0D ∧ encodeChar i ≠ 0x0A := by
  decide

private theorem ofNat_toNat (a : UInt8) : UInt8.ofNat a.toNat = a :=
  UInt8.toNat.inj (UInt8.toNat_ofNat_of_lt a.toNat_lt_size)

/-- Four alphabet characters always decode, whatever the flag for the last quantum. -/
private theorem decodeQuantum_chars {i0 i1 i2 i3 : Nat} (h0 : i0 < 64) (h1 : i1 < 64)
    (h2 : i2 < 64) (h3 : i3 < 64) (last : Bool) :
    decodeQuantum (encodeChar i0) (encodeChar i1) (encodeChar i2) (encodeChar i3) last =
      some (quantumBytes (i0 * 2 ^ 18 + i1 * 2 ^ 12 + i2 * 2 ^ 6 + i3) 3) := by
  simp [decodeQuantum, decodeChar_encodeChar _ h0, decodeChar_encodeChar _ h1,
    decodeChar_encodeChar _ h2, decodeChar_encodeChar _ h3]

private theorem quantumBytes_three (a b c : UInt8) :
    quantumBytes (a.toNat * 2 ^ 16 + b.toNat * 2 ^ 8 + c.toNat) 3 = [a, b, c] := by
  have ha := a.toNat_lt_size; have hb := b.toNat_lt_size; have hc := c.toNat_lt_size
  simp only [UInt8.size] at ha hb hc
  simp only [quantumBytes, List.map_cons, List.map_nil, List.take_succ_cons, List.take_zero,
    List.cons.injEq, and_true]
  refine ⟨?_, ?_, ?_⟩
  · conv_rhs => rw [← ofNat_toNat a]
    congr 1; omega
  · conv_rhs => rw [← ofNat_toNat b]
    congr 1; omega
  · conv_rhs => rw [← ofNat_toNat c]
    congr 1; omega

/-- The six-bit indices of a 24-bit value recombine to the value. -/
private theorem recombine {val : Nat} (hval : val < 2 ^ 24) :
    val / 2 ^ 18 % 64 * 2 ^ 18 + val / 2 ^ 12 % 64 * 2 ^ 12 + val / 2 ^ 6 % 64 * 2 ^ 6 + val % 64
      = val := by
  omega

/-- A full quantum in front of more input decodes to its three bytes. -/
private theorem decodeQuanta_quantum_append {val : Nat} (hval : val < 2 ^ 24) (rest : Bytes) :
    decodeQuanta (quantum val ++ rest) = (quantumBytes val 3 ++ ·) <$> decodeQuanta rest := by
  have h64 : ∀ n, n % 64 < 64 := fun n => Nat.mod_lt _ (by decide)
  show (do
      let q ← decodeQuantum _ _ _ _ rest.isEmpty
      let r ← decodeQuanta rest
      pure (q ++ r)) = _
  rw [decodeQuantum_chars (h64 _) (h64 _) (h64 _) (h64 _), recombine hval]
  cases decodeQuanta rest <;> rfl

theorem decodeQuanta_encode (s : Bytes) : decodeQuanta (encode s) = some s := by
  induction s using encode.induct with
  | case1 => rfl
  | case2 a =>
      have ha := a.toNat_lt_size
      simp only [UInt8.size] at ha
      have h64 : ∀ n, n % 64 < 64 := fun n => Nat.mod_lt _ (by decide)
      simp only [encode, quantum, List.take_succ_cons, List.take_zero, List.cons_append,
        List.nil_append, decodeQuanta, decodeQuantum, decodeChar_encodeChar _ (h64 _),
        pad_not_char, Option.bind_eq_bind, Option.some_bind, List.isEmpty_nil]
      have hrec : (a.toNat * 2 ^ 16) / 2 ^ 18 % 64 * 2 ^ 18 +
          (a.toNat * 2 ^ 16) / 2 ^ 12 % 64 * 2 ^ 12 = a.toNat * 2 ^ 16 := by omega
      simp only [hrec, quantumBytes, List.map_cons, List.take_succ_cons, List.take_zero]
      simp [Nat.mul_div_cancel _ (by decide : 0 < 2 ^ 16), ofNat_toNat]
  | case3 a b =>
      have ha := a.toNat_lt_size; have hb := b.toNat_lt_size
      simp only [UInt8.size] at ha hb
      have h64 : ∀ n, n % 64 < 64 := fun n => Nat.mod_lt _ (by decide)
      simp only [encode, quantum, List.take_succ_cons, List.take_zero, List.cons_append,
        List.nil_append, decodeQuanta, decodeQuantum, decodeChar_encodeChar _ (h64 _),
        pad_not_char, Option.bind_eq_bind, Option.some_bind, List.isEmpty_nil]
      have hrec : (a.toNat * 2 ^ 16 + b.toNat * 2 ^ 8) / 2 ^ 18 % 64 * 2 ^ 18 +
          (a.toNat * 2 ^ 16 + b.toNat * 2 ^ 8) / 2 ^ 12 % 64 * 2 ^ 12 +
          (a.toNat * 2 ^ 16 + b.toNat * 2 ^ 8) / 2 ^ 6 % 64 * 2 ^ 6 =
          a.toNat * 2 ^ 16 + b.toNat * 2 ^ 8 := by omega
      simp only [hrec, quantumBytes, List.map_cons, List.take_succ_cons, List.take_zero]
      have h1 : (a.toNat * 2 ^ 16 + b.toNat * 2 ^ 8) / 2 ^ 16 = a.toNat := by omega
      have h2 : (a.toNat * 2 ^ 16 + b.toNat * 2 ^ 8) / 2 ^ 8 % 2 ^ 8 = b.toNat := by omega
      simp only [h1, h2, ofNat_toNat]
      rfl
  | case4 a b c rest ih =>
      have hval : a.toNat * 2 ^ 16 + b.toNat * 2 ^ 8 + c.toNat < 2 ^ 24 := by
        have := a.toNat_lt_size; have := b.toNat_lt_size; have := c.toNat_lt_size
        simp only [UInt8.size] at *; omega
      rw [encode, decodeQuanta_quantum_append hval, ih, quantumBytes_three]
      rfl

theorem encode_plain (s : Bytes) : ∀ c ∈ encode s, c.toNat < 0x80 ∧ c ≠ 0x0D ∧ c ≠ 0x0A := by
  have h64 : ∀ n, n % 64 < 64 := fun n => Nat.mod_lt _ (by decide)
  have hpad : pad.toNat < 0x80 ∧ pad ≠ 0x0D ∧ pad ≠ 0x0A := by decide
  induction s using encode.induct with
  | case1 => simp [encode]
  | case2 a =>
      simp only [encode, quantum, List.take_succ_cons, List.take_zero, List.cons_append,
        List.nil_append, List.forall_mem_cons]
      exact ⟨encodeChar_plain _ (h64 _), encodeChar_plain _ (h64 _), hpad, hpad, by simp⟩
  | case3 a b =>
      simp only [encode, quantum, List.take_succ_cons, List.take_zero, List.cons_append,
        List.nil_append, List.forall_mem_cons]
      exact ⟨encodeChar_plain _ (h64 _), encodeChar_plain _ (h64 _),
        encodeChar_plain _ (h64 _), hpad, by simp⟩
  | case4 a b c rest ih =>
      simp only [encode, quantum, List.cons_append, List.nil_append, List.forall_mem_cons]
      exact ⟨encodeChar_plain _ (h64 _), encodeChar_plain _ (h64 _),
        encodeChar_plain _ (h64 _), encodeChar_plain _ (h64 _), ih⟩

/-- `DecodeString` inverts `EncodeToString` on every byte string. -/
theorem decode_encode (s : Bytes) : decode (encode s) = some s := by
  rw [decode, List.filter_eq_self.mpr, decodeQuanta_encode]
  intro c hc
  have := encode_plain s c hc
  simp [this.2.1, this.2.2]

/-- Base64 text is ASCII, so `encoding/json` writes it unchanged. -/
theorem valid_encode (s : Bytes) : Utf8.valid (encode s) :=
  Utf8.valid_ascii fun c hc => (encode_plain s c hc).1

end OmniVault.Base64
