import OmniVault.Encoding.JsonValues

/-!
`vault.Secret` and `vault.Metadata` and their JSON form: the plaintext that
`EncryptedStore.Set` encrypts and `Get` decrypts and reads back.

`Timestamp.MarshalJSON` writes the `RFC3339` text of its time, so a secret's
times come back truncated to the second, and a zone offset that is not a
whole number of minutes comes back cut to minutes, the wall clock kept. `Metadata` is tagged `omitempty`,
which Go ignores on a struct: the `metadata` member is always written.
`Metadata.Extra`, a `map[string]any`, is left out of the record: nothing in
the code modelled sets it, and an `extra` member is read as Go reads it into
an `any` map that is then dropped (a number in it that overflows a `float64`,
which Go refuses, is not modelled).
-/

namespace OmniVault.Vault

open Json

/-- `vault.Metadata`, without `Extra`. -/
structure Metadata where
  createdAt : Option Time := none
  modifiedAt : Option Time := none
  expiresAt : Option Time := none
  version : Bytes := []
  tags : GoMap Bytes := GoMap.empty
  labels : List Bytes := []
  provider : Bytes := []
  path : Bytes := []
  deriving DecidableEq

/-- `vault.Secret`. -/
structure Secret where
  value : Bytes := []
  valueBytes : Bytes := []
  fields : GoMap Bytes := GoMap.empty
  metadata : Metadata := {}
  deriving DecidableEq

/-! ## Writing -/

/-- A `*Timestamp` field tagged `omitempty`: left out when nil. -/
def timestampMember (name : String) : Option Time → List (Bytes × Json)
  | none => []
  | some t => [(Bytes.ofString name, encodeTimestamp t)]

def Metadata.toJson (m : Metadata) : Json :=
  .object (timestampMember "createdAt" m.createdAt ++ timestampMember "modifiedAt" m.modifiedAt ++
    timestampMember "expiresAt" m.expiresAt ++
    omitEmpty "version" m.version.isEmpty (.string m.version) ++
    omitEmpty "tags" (m.tags.size == 0) (encodeStringMap m.tags) ++
    omitEmpty "labels" m.labels.isEmpty (encodeStrings m.labels) ++
    omitEmpty "provider" m.provider.isEmpty (.string m.provider) ++
    omitEmpty "path" m.path.isEmpty (.string m.path))

/-- The tree `json.Marshal(secret)` writes. -/
def Secret.toJson (s : Secret) : Json :=
  .object (omitEmpty "value" s.value.isEmpty (.string s.value) ++
    omitEmpty "valueBytes" s.valueBytes.isEmpty (encodeBytes s.valueBytes) ++
    omitEmpty "fields" (s.fields.size == 0) (encodeStringMap s.fields) ++
    [(Bytes.ofString "metadata", s.metadata.toJson)])

/-! ## Reading -/

/-- An `extra` member, read into a `map[string]any`: an object or `null`. -/
def decodeExtra : Json → Option Unit
  | .object _ | .null => some ()
  | _ => none

/-- One member of a `metadata` object. -/
def Metadata.storeField (key : Bytes) (v : Json) (m : Metadata) : Option Metadata :=
  if selects (.ofString "createdAt") key then
    (fun x => { m with createdAt := x }) <$> decodeTimestamp v m.createdAt
  else if selects (.ofString "modifiedAt") key then
    (fun x => { m with modifiedAt := x }) <$> decodeTimestamp v m.modifiedAt
  else if selects (.ofString "expiresAt") key then
    (fun x => { m with expiresAt := x }) <$> decodeTimestamp v m.expiresAt
  else if selects (.ofString "version") key then
    (fun x => { m with version := x }) <$> decodeString v m.version
  else if selects (.ofString "tags") key then
    (fun x => { m with tags := x }) <$> decodeStringMap v m.tags
  else if selects (.ofString "labels") key then
    (fun x => { m with labels := x }) <$> decodeStrings v m.labels
  else if selects (.ofString "provider") key then
    (fun x => { m with provider := x }) <$> decodeString v m.provider
  else if selects (.ofString "path") key then
    (fun x => { m with path := x }) <$> decodeString v m.path
  else if selects (.ofString "extra") key then (fun _ => m) <$> decodeExtra v
  else some m

/-- One member of a secret object. -/
def Secret.storeField (key : Bytes) (v : Json) (s : Secret) : Option Secret :=
  if selects (.ofString "value") key then
    (fun x => { s with value := x }) <$> decodeString v s.value
  else if selects (.ofString "valueBytes") key then
    (fun x => { s with valueBytes := x }) <$> decodeBytes v s.valueBytes
  else if selects (.ofString "fields") key then
    (fun x => { s with fields := x }) <$> decodeStringMap v s.fields
  else if selects (.ofString "metadata") key then
    (fun x => { s with metadata := x }) <$> decodeStruct Metadata.storeField v s.metadata
  else some s

/-- `json.Unmarshal(data, &secret)` into a zero `Secret`, after the syntax layer. -/
def Secret.ofJson (j : Json) : Option Secret := decodeStruct Secret.storeField j {}

/-! ## What a secret reads back as -/

/-- The times `RFC3339` can write and read back. -/
def timeInRange : Option Time → Prop
  | none => True
  | some t => t.InRange

instance : (t : Option Time) → Decidable (timeInRange t)
  | none => isTrue trivial
  | some t => inferInstanceAs (Decidable t.InRange)

def Metadata.TimesInRange (m : Metadata) : Prop :=
  timeInRange m.createdAt ∧ timeInRange m.modifiedAt ∧ timeInRange m.expiresAt

instance (m : Metadata) : Decidable m.TimesInRange := inferInstanceAs (Decidable (_ ∧ _ ∧ _))

/-- A secret with every time truncated to the second, as it reads back. -/
def Metadata.normalize (m : Metadata) : Metadata :=
  { m with
    createdAt := m.createdAt.map Time.truncSec
    modifiedAt := m.modifiedAt.map Time.truncSec
    expiresAt := m.expiresAt.map Time.truncSec }

def Secret.normalize (s : Secret) : Secret := { s with metadata := s.metadata.normalize }

/-- The times `RFC3339` writes and reads back as some time. -/
def timeWritable : Option Time → Prop
  | none => True
  | some t => t.Writable

instance : (t : Option Time) → Decidable (timeWritable t)
  | none => isTrue trivial
  | some t => inferInstanceAs (Decidable t.Writable)

def Metadata.TimesWritable (m : Metadata) : Prop :=
  timeWritable m.createdAt ∧ timeWritable m.modifiedAt ∧ timeWritable m.expiresAt

instance (m : Metadata) : Decidable m.TimesWritable := inferInstanceAs (Decidable (_ ∧ _ ∧ _))

/-- A secret as it reads back: every time truncated to the second, on the
same wall clock in its zone cut to whole minutes. -/
def Metadata.readBack (m : Metadata) : Metadata :=
  { m with
    createdAt := m.createdAt.map fun t => t.truncSec.rezone
    modifiedAt := m.modifiedAt.map fun t => t.truncSec.rezone
    expiresAt := m.expiresAt.map fun t => t.truncSec.rezone }

def Secret.readBack (s : Secret) : Secret := { s with metadata := s.metadata.readBack }

theorem timeWritable_of_inRange : ∀ {t : Option Time}, timeInRange t → timeWritable t
  | none, _ => trivial
  | some _, h => Time.InRange.writable h

theorem Metadata.TimesInRange.writable {m : Metadata} (h : m.TimesInRange) : m.TimesWritable :=
  ⟨timeWritable_of_inRange h.1, timeWritable_of_inRange h.2.1, timeWritable_of_inRange h.2.2⟩

theorem map_rezone_of_inRange : ∀ {t : Option Time}, timeInRange t →
    t.map (fun t => t.truncSec.rezone) = t.map Time.truncSec
  | none, _ => rfl
  | some _, h => congrArg some (Time.rezone_of_dvd h.2.2.1)

/-- Times in range read back as they were, truncated to the second. -/
theorem Secret.readBack_of_timesInRange {s : Secret} (h : s.metadata.TimesInRange) :
    s.readBack = s.normalize := by
  simp only [Secret.readBack, Secret.normalize, Metadata.readBack, Metadata.normalize,
    map_rezone_of_inRange h.1, map_rezone_of_inRange h.2.1, map_rezone_of_inRange h.2.2]

/-- Every text of the secret is valid UTF-8, so `json.Marshal` keeps it. -/
def Secret.textValid (s : Secret) : Bool := s.toJson.validText

/-- A secret `json.Marshal` writes and `json.Unmarshal` reads back as it was,
its times truncated: valid UTF-8 texts, times in range. -/
def Secret.Storable (s : Secret) : Prop := s.textValid ∧ s.metadata.TimesInRange

instance (s : Secret) : Decidable s.Storable := inferInstanceAs (Decidable (_ ∧ _))

/-- A secret `json.Marshal` writes and `json.Unmarshal` reads back as
`readBack` says: valid UTF-8 texts, times `RFC3339` can write. -/
def Secret.Readable (s : Secret) : Prop := s.textValid ∧ s.metadata.TimesWritable

instance (s : Secret) : Decidable s.Readable := inferInstanceAs (Decidable (_ ∧ _))

/-- Decoding the members `omitempty` writes: a written member is stored; a
member left out must leave the struct as it is. -/
theorem foldlM_omitEmpty {σ : Type} (g : σ → Bytes × Json → Option σ) {name : String}
    {empty : Bool} {v : Json} {s r : σ} (rest : List (Bytes × Json))
    (hwrite : empty = false → g s (Bytes.ofString name, v) = some r)
    (hskip : empty = true → s = r) :
    (omitEmpty name empty v ++ rest).foldlM g s = rest.foldlM g r := by
  cases empty
  · simp [omitEmpty, hwrite rfl]
  · simp [omitEmpty, hskip rfl]

theorem foldlM_timestampMember {σ : Type} (g : σ → Bytes × Json → Option σ) {name : String}
    {t : Option Time} {s r : σ} (rest : List (Bytes × Json))
    (hwrite : ∀ x, t = some x → g s (Bytes.ofString name, encodeTimestamp x) = some r)
    (hskip : t = none → s = r) :
    (timestampMember name t ++ rest).foldlM g s = rest.foldlM g r := by
  cases t with
  | none => simp [timestampMember, hskip rfl]
  | some x => simp [timestampMember, hwrite x rfl]

theorem Metadata.ofJson_toJson (m : Metadata) (hm : m.TimesWritable) :
    decodeStruct Metadata.storeField m.toJson {} = some m.readBack := by
  obtain ⟨c, mo, e, ver, tags, labels, prov, path⟩ := m
  obtain ⟨hc, hmo, he⟩ := hm
  let s1 : Metadata := { createdAt := c.map fun t => t.truncSec.rezone }
  let s2 := { s1 with modifiedAt := mo.map fun t : Time => t.truncSec.rezone }
  let s3 := { s2 with expiresAt := e.map fun t : Time => t.truncSec.rezone }
  let s4 := { s3 with version := ver }
  let s5 := { s4 with tags := tags }
  let s6 := { s5 with labels := labels }
  let s7 := { s6 with provider := prov }
  simp only [Metadata.toJson, decodeStruct, List.append_assoc]
  rw [foldlM_timestampMember _ _ (r := s1)
      (fun x hx => by subst hx; simp +decide [s1, storeField, decodeTimestamp_encodeTimestamp hc])
      (fun hx => by subst hx; rfl),
    foldlM_timestampMember _ _ (r := s2)
      (fun x hx => by subst hx; simp +decide [s2, storeField, decodeTimestamp_encodeTimestamp hmo])
      (fun hx => by subst hx; rfl),
    foldlM_timestampMember _ _ (r := s3)
      (fun x hx => by subst hx; simp +decide [s3, storeField, decodeTimestamp_encodeTimestamp he])
      (fun hx => by subst hx; rfl),
    foldlM_omitEmpty _ _ (r := s4) (fun _ => by simp +decide [s4, storeField])
      (fun h => by obtain rfl := List.isEmpty_iff.mp h; rfl),
    foldlM_omitEmpty _ _ (r := s5)
      (fun _ => by simp +decide [s5, storeField, decodeStringMap_encodeStringMap])
      (fun h => by obtain rfl := GoMap.eq_empty_of_size (beq_iff_eq.mp h); rfl),
    foldlM_omitEmpty _ _ (r := s6)
      (fun _ => by simp +decide [s6, storeField, decodeStrings_encodeStrings])
      (fun h => by obtain rfl := List.isEmpty_iff.mp h; rfl),
    foldlM_omitEmpty _ _ (r := s7) (fun _ => by simp +decide [s7, storeField])
      (fun h => by obtain rfl := List.isEmpty_iff.mp h; rfl),
    ← List.append_nil (omitEmpty "path" _ _),
    foldlM_omitEmpty _ _ (r := { s7 with path := path }) (fun _ => by simp +decide [storeField])
      (fun h => by obtain rfl := List.isEmpty_iff.mp h; rfl)]
  rfl

/-- A secret whose times `RFC3339` can write reads back from its tree as
`readBack` says. -/
theorem Secret.ofJson_toJson (s : Secret) (hs : s.metadata.TimesWritable) :
    Secret.ofJson s.toJson = some s.readBack := by
  obtain ⟨value, valueBytes, fields, m⟩ := s
  let s1 : Secret := { value := value }
  let s2 := { s1 with valueBytes := valueBytes }
  let s3 := { s2 with fields := fields }
  simp only [Secret.ofJson, Secret.toJson, decodeStruct, List.append_assoc]
  rw [foldlM_omitEmpty _ _ (r := s1) (fun _ => by simp +decide [s1, storeField])
      (fun h => by obtain rfl := List.isEmpty_iff.mp h; rfl),
    foldlM_omitEmpty _ _ (r := s2)
      (fun _ => by simp +decide [s2, storeField, decodeBytes_encodeBytes])
      (fun h => by obtain rfl := List.isEmpty_iff.mp h; rfl),
    foldlM_omitEmpty _ _ (r := s3)
      (fun _ => by simp +decide [s3, storeField, decodeStringMap_encodeStringMap])
      (fun h => by obtain rfl := GoMap.eq_empty_of_size (beq_iff_eq.mp h); rfl)]
  simp +decide [storeField, Metadata.ofJson_toJson m hs, s3, s2, s1, Secret.readBack]

@[simp] theorem wellFormedMembers_timestampMember (name : String) (t : Option Time) :
    wellFormed.wellFormedMembers (timestampMember name t) := by
  cases t <;> rfl

theorem Secret.wellFormed_toJson (s : Secret) : s.toJson.wellFormed := by
  simp [Secret.toJson, Metadata.toJson, wellFormed.wellFormedMembers, encodeBytes]

/-- `json.Marshal(secret)`; it cannot fail on the fields modelled. -/
def Secret.marshal (s : Secret) : Bytes := encode s.toJson

/-- `json.Unmarshal(data, &secret)` into a zero `Secret`. -/
def Secret.unmarshal (b : Bytes) : Option Secret := (decode b).bind Secret.ofJson

/-- A secret with valid texts and times `RFC3339` can write survives
`json.Marshal` and `json.Unmarshal`, its times moved as `readBack` says. -/
theorem Secret.unmarshal_marshal_readBack {s : Secret} (hs : s.Readable) :
    Secret.unmarshal s.marshal = some s.readBack := by
  rw [Secret.unmarshal, Secret.marshal, decode_encode_of_validText s.wellFormed_toJson hs.1,
    Option.some_bind, Secret.ofJson_toJson s hs.2]

/-- With times in range, only the fractions of seconds are lost. -/
theorem Secret.unmarshal_marshal {s : Secret} (hv : s.textValid) (ht : s.metadata.TimesInRange) :
    Secret.unmarshal s.marshal = some s.normalize := by
  rw [Secret.unmarshal_marshal_readBack ⟨hv, ht.writable⟩, Secret.readBack_of_timesInRange ht]

/-! ## A timestamp on its own -/

/-- `Timestamp.MarshalJSON`: `json.Marshal` of the `RFC3339` text. -/
def Timestamp.marshalJSON (t : Time) : Bytes := encode (encodeTimestamp t)

/-- `Timestamp.UnmarshalJSON`: the JSON read into a Go string (`null` leaves
it empty), then `time.Parse(time.RFC3339, s)`. -/
def Timestamp.unmarshalJSON (data : Bytes) : Option Time := do
  let s ← (decode data).bind (decodeString · [])
  Time.parseRFC3339 s

/-- A timestamp whose year has four digits and whose zone is a whole number of
minutes under a day reads back as the same instant in the same zone, cut to
the second; so a secret with valid texts, such times and no `Extra`
survives the JSON `Set` writes and `Get` reads, its times cut to the second. -/
theorem timestamp_roundTrip {t : Time} (ht : t.InRange) :
    Timestamp.unmarshalJSON (Timestamp.marshalJSON t) = some t.truncSec ∧
      ∀ s : Secret, s.textValid → s.metadata.TimesInRange → Secret.unmarshal s.marshal = some s.normalize := by
  have hv : Utf8.valid (Time.format t) := Utf8.valid_ascii (Time.appendFormatRFC3339_ascii t false)
  refine ⟨?_, fun s hs ht => Secret.unmarshal_marshal hs ht⟩
  rw [Timestamp.unmarshalJSON, Timestamp.marshalJSON, encodeTimestamp,
    decode_encode_of_validText (wellFormed_string _) (by simpa using hv)]
  simp only [Option.bind_eq_bind, Option.some_bind, decodeString_string, Time.format,
    Time.parseRFC3339_appendFormatRFC3339 ht false]
  rfl

theorem timestamp_roundTrip_zero :
    Time.zero.InRange ∧ Timestamp.unmarshalJSON (Timestamp.marshalJSON Time.zero) = some Time.zero.truncSec ∧
      ∀ s : Secret, s.textValid → s.metadata.TimesInRange → Secret.unmarshal s.marshal = some s.normalize :=
  ⟨Time.zero_inRange, timestamp_roundTrip Time.zero_inRange⟩

/-- Two times outside that range that do not read back: the year 10000 is
written with five digits and refused, and a zone 30 seconds east of UTC is
written as "+00:00", which moves the instant. -/
theorem timestamp_out_of_range :
    Timestamp.unmarshalJSON (Timestamp.marshalJSON ⟨253402300800, 0, 0, by decide⟩) = none ∧
      Timestamp.unmarshalJSON (Timestamp.marshalJSON ⟨0, 0, 30, by decide⟩) = some ⟨30, 0, 0, by decide⟩ := by
  decide

end OmniVault.Vault
