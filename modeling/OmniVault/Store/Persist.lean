import OmniVault.Store.Crypto

/-!
The two files of the vault. `saveMeta` writes `json.MarshalIndent(s.meta,
"", "  ")` to the metadata file and `saveData` writes `json.Marshal(s.data)`
to the data file, each after `os.MkdirAll` of its directory; `loadMeta` and
`loadData` read them back with `json.Unmarshal`. A missing data file reads
as an empty vault, and a nil secrets map as an empty one.
-/

namespace OmniVault.Store

open Json

/-! ## Writing -/

def Argon2Params.toJson (p : Argon2Params) : Json :=
  .object [(.ofString "time", encodeUint p.time), (.ofString "memory", encodeUint p.memory),
    (.ofString "threads", encodeUint p.threads), (.ofString "key_len", encodeUint p.keyLen)]

/-- A `[]byte` field without `omitempty`: nil is written as `null`. -/
def encodeNilableBytes : Option Bytes → Json
  | none => .null
  | some b => encodeBytes b

/-- The tree of a `VaultMeta` whose `created_at` is written as `createdAt`. -/
def VaultMeta.toJson (m : VaultMeta) (createdAt : Json) : Json :=
  .object [(.ofString "version", encodeInt m.version), (.ofString "created_at", createdAt),
    (.ofString "salt", encodeNilableBytes m.salt), (.ofString "argon2_params", m.argon2Params.toJson),
    (.ofString "verification", .string m.verification)]

/-- The tree `json.MarshalIndent(s.meta, "", "  ")` writes, or its error;
a nil `*VaultMeta` is written as `null`. -/
def metaJson : Option VaultMeta → Except GoError Json
  | none => .ok .null
  | some m => (m.toJson <$> encodeTime m.createdAt).mapError .text

/-- The tree `json.Marshal(s.data)` writes; a nil `*VaultData` is written as `null`. -/
def dataJson : Option VaultData → Json
  | none => .null
  | some d => .object [(.ofString "secrets", encodeStringMap d.secrets)]

/-! ## Reading -/

/-- Decoding into a `[]byte` whose nil matters: `null` makes it nil, a
string is decoded from base64 into a slice that is not nil. -/
def decodeNilableBytes : Json → Option Bytes → Option (Option Bytes)
  | .string s, _ => some <$> Base64.decode s
  | .null, _ => some none
  | _, _ => none

def Argon2Params.storeField (key : Bytes) (v : Json) (p : Argon2Params) : Option Argon2Params :=
  if selects (.ofString "time") key then (fun x => { p with time := x }) <$> decodeUint 32 v p.time
  else if selects (.ofString "memory") key then
    (fun x => { p with memory := x }) <$> decodeUint 32 v p.memory
  else if selects (.ofString "threads") key then
    (fun x => { p with threads := x }) <$> decodeUint 8 v p.threads
  else if selects (.ofString "key_len") key then
    (fun x => { p with keyLen := x }) <$> decodeUint 32 v p.keyLen
  else some p

/-- The zero `VaultMeta` `loadMeta` decodes into. -/
def VaultMeta.zero : VaultMeta := ⟨0, Time.zero, none, ⟨0, 0, 0, 0⟩, []⟩

def VaultMeta.storeField (key : Bytes) (v : Json) (m : VaultMeta) : Option VaultMeta :=
  if selects (.ofString "version") key then (fun x => { m with version := x }) <$> decodeInt v m.version
  else if selects (.ofString "created_at") key then
    (fun x => { m with createdAt := x }) <$> decodeTime v m.createdAt
  else if selects (.ofString "salt") key then (fun x => { m with salt := x }) <$> decodeNilableBytes v m.salt
  else if selects (.ofString "argon2_params") key then
    (fun x => { m with argon2Params := x }) <$> decodeStruct Argon2Params.storeField v m.argon2Params
  else if selects (.ofString "verification") key then
    (fun x => { m with verification := x }) <$> decodeString v m.verification
  else some m

def VaultMeta.ofJson (j : Json) : Option VaultMeta := decodeStruct VaultMeta.storeField j VaultMeta.zero

def VaultData.storeField (key : Bytes) (v : Json) (d : VaultData) : Option VaultData :=
  if selects (.ofString "secrets") key then (fun x => { d with secrets := x }) <$> decodeStringMap v d.secrets
  else some d

/-- `json.Unmarshal` into a zero `VaultData`; a nil map is an empty one. -/
def VaultData.ofJson (j : Json) : Option VaultData := decodeStruct VaultData.storeField j ⟨GoMap.empty⟩

/-- What `loadMeta` reads from the text of the metadata file. -/
def readMeta (b : Bytes) : Option VaultMeta := (decode b).bind VaultMeta.ofJson

/-- What `loadData` reads from the text of the data file. -/
def readData (b : Bytes) : Option VaultData := (decode b).bind VaultData.ofJson

/-- The error of `json.Unmarshal`. -/
def jsonError : GoError := .lib (.ofString "encoding/json")

/-! ## The store's methods -/

section

variable (env : Env)

/-- `s.saveMeta()`. -/
def saveMeta : StoreM Unit := do
  mkdirAll env
  match metaJson (← getStore).meta with
  | .error e => throw (.error e)
  | .ok j => writeFile env .meta (encodeIndent j)

/-- `s.loadMeta()`. -/
def loadMeta : StoreM Unit := do
  match ← readFile env .meta with
  | .error e => throw (.error e)
  | .ok b =>
    let some m := readMeta b | throw (.error jsonError)
    modifyStore fun s => { s with meta := some m }

/-- `s.saveData()`. -/
def saveData : StoreM Unit := do
  mkdirAll env
  writeFile env .vault (encode (dataJson (← getStore).data))
  modifyStore fun s => { s with dirty := false }

/-- `s.loadData()`. -/
def loadData : StoreM Unit := do
  match ← readFile env .vault with
  | .error (.os _ true) => modifyStore fun s => { s with data := some ⟨GoMap.empty⟩ }
  | .error e => throw (.error e)
  | .ok b =>
    let some d := readData b | throw (.error jsonError)
    modifyStore fun s => { s with data := some d }

end

/-! ## What the files read back as -/

/-- The numbers of the parameters fit their Go types. -/
def Argon2Params.Fits (p : Argon2Params) : Prop :=
  p.time < 2 ^ 32 ∧ p.memory < 2 ^ 32 ∧ p.threads < 2 ^ 8 ∧ p.keyLen < 2 ^ 32

theorem defaultArgon2Params_fits : defaultArgon2Params.Fits := by
  simp [Argon2Params.Fits, defaultArgon2Params]

theorem Argon2Params.ofJson_toJson {p : Argon2Params} (hp : p.Fits) (old : Argon2Params) :
    decodeStruct Argon2Params.storeField p.toJson old = some p := by
  obtain ⟨ht, hm, hth, hk⟩ := hp
  simp +decide [decodeStruct, Argon2Params.toJson, Argon2Params.storeField,
    decodeUint_encodeUint ht (by decide), decodeUint_encodeUint hm (by decide),
    decodeUint_encodeUint hth (by decide), decodeUint_encodeUint hk (by decide)]

/-- Metadata that `saveMeta` can write and `loadMeta` read back unchanged. -/
structure VaultMeta.Writable (m : VaultMeta) : Prop where
  createdAt : m.createdAt.InRange
  version : -2 ^ 63 ≤ m.version ∧ m.version < 2 ^ 63
  params : m.argon2Params.Fits
  verification : Utf8.valid m.verification

theorem metaJson_some {m : VaultMeta} (h : m.createdAt.InRange) :
    metaJson (some m) = .ok (m.toJson (.string (Time.formatNano m.createdAt))) := by
  rw [metaJson, encodeTime_of_inRange h]
  rfl

theorem decodeNilableBytes_encode (b old : Option Bytes) :
    decodeNilableBytes (encodeNilableBytes b) old = some b := by
  cases b <;> simp [decodeNilableBytes, encodeNilableBytes, encodeBytes, Base64.decode_encode]

theorem VaultMeta.ofJson_toJson {m : VaultMeta} (h : m.Writable) :
    VaultMeta.ofJson (m.toJson (.string (Time.formatNano m.createdAt))) = some m := by
  obtain ⟨hc, ⟨hlo, hhi⟩, hp, -⟩ := h
  simp +decide [VaultMeta.ofJson, VaultMeta.toJson, VaultMeta.storeField,
    decodeInt_encodeInt hlo hhi, decodeTime_formatNano hc, decodeNilableBytes_encode,
    Argon2Params.ofJson_toJson hp]

/-- Metadata read back with whatever time its `created_at` text parses to. -/
theorem VaultMeta.ofJson_toJson_string {m : VaultMeta} (hv : -2 ^ 63 ≤ m.version ∧ m.version < 2 ^ 63)
    (hp : m.argon2Params.Fits) (s : Bytes) :
    VaultMeta.ofJson (m.toJson (.string s)) = (Time.parseRFC3339 s).map fun t => { m with createdAt := t } := by
  cases h : Time.parseRFC3339 s <;>
    simp +decide [VaultMeta.ofJson, VaultMeta.toJson, VaultMeta.storeField, decodeTime, h,
      decodeInt_encodeInt hv.1 hv.2, decodeNilableBytes_encode, Argon2Params.ofJson_toJson hp]

theorem wellFormed_metaTree (m : VaultMeta) :
    (m.toJson (.string (Time.formatNano m.createdAt))).wellFormed := by
  cases h : m.salt <;>
    simp [VaultMeta.toJson, Argon2Params.toJson, wellFormed.wellFormedMembers, h,
      encodeNilableBytes, encodeBytes, wellFormed_encodeInt, wellFormed_encodeUint]

theorem validText_metaTree {m : VaultMeta} (h : Utf8.valid m.verification) :
    (m.toJson (.string (Time.formatNano m.createdAt))).validText := by
  have hnano : Utf8.valid (Time.formatNano m.createdAt) :=
    Utf8.valid_ascii (Time.appendFormatRFC3339_ascii _ _)
  cases hs : m.salt <;>
    simp +decide [VaultMeta.toJson, Argon2Params.toJson, validText.validTextMembers, hs, h,
      hnano, encodeNilableBytes, encodeInt, encodeUint, encodeBytes, Base64.valid_encode]

/-- What `saveMeta` writes, `loadMeta` reads back. -/
theorem readMeta_encodeIndent {m : VaultMeta} (h : m.Writable) :
    readMeta (encodeIndent (m.toJson (.string (Time.formatNano m.createdAt)))) = some m := by
  rw [readMeta, decode_encodeIndent_of_validText (wellFormed_metaTree m)
    (validText_metaTree h.verification), Option.some_bind, VaultMeta.ofJson_toJson h]

/-- Every path and ciphertext of the vault is valid UTF-8. -/
def VaultData.TextValid (d : VaultData) : Prop := ∀ e ∈ d.secrets.entries, Utf8.valid e.1 ∧ Utf8.valid e.2

theorem VaultData.ofJson_dataJson (d : VaultData) : VaultData.ofJson (dataJson (some d)) = some d := by
  simp +decide [VaultData.ofJson, dataJson, decodeStruct, VaultData.storeField,
    decodeStringMap_encodeStringMap]

/-- What `saveData` writes, `loadData` reads back, when its texts are valid. -/
theorem readData_encode {d : VaultData} (h : d.TextValid) :
    readData (encode (dataJson (some d))) = some d := by
  have hv : (dataJson (some d)).validText := by
    simp +decide [dataJson, validText.validTextMembers, validText_encodeStringMap h]
  have hw : (dataJson (some d)).wellFormed := by simp [dataJson, wellFormed.wellFormedMembers]
  rw [readData, decode_encode_of_validText hw hv, Option.some_bind, VaultData.ofJson_dataJson]

end OmniVault.Store
