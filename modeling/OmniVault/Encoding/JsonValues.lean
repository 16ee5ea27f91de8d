import OmniVault.Encoding.JsonRoundTrip
import OmniVault.Go.Strconv
import OmniVault.Go.Time

/-!
The reflection layer of `encoding/json` for the Go types the store writes:
`string`, `[]byte`, integers, `map[string]string`, `[]string`,
`time.Time`, `*vault.Timestamp` and structs of these.

Encoding writes a struct's fields in declaration order and leaves out an
`omitempty` field holding its empty value; a `[]byte` becomes its standard
base64 text and a map its members in increasing key order. The maps the
store writes are never nil, so a map is always written as an object.

Decoding reads an object's members in document order. A member is stored
into the field whose JSON name it equals after case folding (`foldName`);
a member that names no field is skipped and a later member overwrites what
an earlier one stored. `null` leaves a string, a number, a struct or a
`time.Time` as it is and makes a map, a slice or a pointer nil. A value of
the wrong type, a number out of range or a text that is not base64 makes
`Unmarshal` fail (it reports the first such error once it has read the whole
document, and the code modelled never uses the value it filled in by then).
Members of a map are added to the map already there, and the elements of an
array are decoded into the slice's existing elements; the slice's spare
capacity beyond its length, which Go also reuses, is not modelled.

Two corners of the time types are not modelled: `time.Parse` falling back to
its general layout parser when the `RFC3339` fast path refuses a text (the
model refuses it), and `Time.UnmarshalJSON` reading the text between the
quotes without unescaping it (the model reads the unescaped text; the two
differ only on a text with a backslash escape, which Go refuses).
-/

namespace OmniVault.Json

open Utf8

/-! ## Field names -/

/-- `appendFoldedName` on an ASCII byte: `a` to `z` become upper case. -/
def upperAscii (c : UInt8) : UInt8 := if 0x61 ≤ c.toNat ∧ c.toNat ≤ 0x7A then c - 0x20 else c

/-- U+017F and U+212A, the runes outside ASCII whose case-fold class holds an
ASCII letter: `foldRune` takes them to `S` and `K`. -/
def longS : Bytes := [0xC5, 0xBF]
def kelvin : Bytes := [0xE2, 0x84, 0xAA]

/-- `foldRune` on one result of `DecodeRune`, written back as UTF-8. Any other
rune outside ASCII is kept: its fold is outside ASCII as well, and a folded
name is only ever compared with an ASCII field name. -/
def foldPiece : Piece → Bytes
  | .rune r => if r = longS then [0x53] else if r = kelvin then [0x4B] else r.map upperAscii
  | .invalid _ => replacementChar

/-- `foldName`. -/
def foldName (s : Bytes) : Bytes := (pieces s).flatMap foldPiece

/-- Whether a member named `key` is stored into the field named `name`
(`byExactName`, then `byFoldedName`). -/
def selects (name key : Bytes) : Bool := foldName key == foldName name

/-! ## Decoding -/

/-- Decoding into a `string`. -/
def decodeString : Json → Bytes → Option Bytes
  | .string s, _ => some s
  | .null, old => some old
  | _, _ => none

/-- Decoding into a `[]byte`: standard base64 text; `null` makes it nil. -/
def decodeBytes : Json → Bytes → Option Bytes
  | .string s, _ => Base64.decode s
  | .null, _ => some []
  | _, _ => none

/-- Decoding into an unsigned integer of `bits` bits: `ParseUint` of the
literal, then the overflow check. -/
def decodeUint (bits : Nat) : Json → Nat → Option Nat
  | .number lit, _ => (Strconv.parseUint lit 64).bind fun n => if n < 2 ^ bits then some n else none
  | .null, old => some old
  | _, _ => none

/-- Decoding into an `int`. -/
def decodeInt : Json → Int → Option Int
  | .number lit, _ => Strconv.parseInt lit 64
  | .null, old => some old
  | _, _ => none

/-- Decoding into a `map[string]string`: each member is added to the map
already there; a `null` member value stores `""`. -/
def decodeStringMap : Json → GoMap Bytes → Option (GoMap Bytes)
  | .object ms, old => ms.foldlM (fun m kv => (m.insert kv.1 ·) <$> decodeString kv.2 []) old
  | .null, _ => some GoMap.empty
  | _, _ => none

/-- Decoding into a `[]string`: element `i` is decoded into the slice's
element `i` when there is one, else into `""`, and the slice is cut to the
elements read. -/
def decodeStrings : Json → List Bytes → Option (List Bytes)
  | .array xs, old => decodeElems xs old
  | .null, _ => some []
  | _, _ => none
where
  decodeElems : List Json → List Bytes → Option (List Bytes)
    | [], _ => some []
    | x :: xs, old => do
      let s ← decodeString x (old.headD [])
      let rest ← decodeElems xs old.tail
      pure (s :: rest)

/-- `Time.UnmarshalJSON`: `null` leaves the time as it is, a string is read
by `parseStrictRFC3339`. -/
def decodeTime : Json → Time → Option Time
  | .string s, _ => Time.parseRFC3339 s
  | .null, old => some old
  | _, _ => none

/-- Decoding into a `*vault.Timestamp`: `null` makes the pointer nil, and
`Timestamp.UnmarshalJSON` reads a string with `time.Parse(time.RFC3339, s)`. -/
def decodeTimestamp : Json → Option Time → Option (Option Time)
  | .string s, _ => some <$> Time.parseRFC3339 s
  | .null, _ => some none
  | _, _ => none

/-- `d.object` into a struct: every member goes to `field`, which stores it
into the field it selects or skips it. `null` leaves the struct as it is. -/
def decodeStruct {σ : Type} (field : Bytes → Json → σ → Option σ) : Json → σ → Option σ
  | .object ms, s => ms.foldlM (fun s kv => field kv.1 kv.2 s) s
  | .null, s => some s
  | _, _ => none

/-! ## Encoding -/

def encodeBytes (b : Bytes) : Json := .string (Base64.encode b)

def encodeUint (n : Nat) : Json := .number (Strconv.formatUint n)

def encodeInt (x : Int) : Json := .number (Strconv.formatInt x)

def encodeStringMap (m : GoMap Bytes) : Json := .object (m.entries.map fun e => (e.1, .string e.2))

def encodeStrings (xs : List Bytes) : Json := .array (xs.map .string)

/-- `Timestamp.MarshalJSON`: the `RFC3339` text as a JSON string. -/
def encodeTimestamp (t : Time) : Json := .string (Time.format t)

/-- `Time.MarshalJSON` under `json.Marshal`, which wraps its error. -/
def encodeTime (t : Time) : Except Bytes Json :=
  match Time.marshalJSON t with
  | .ok _ => .ok (.string (Time.formatNano t))
  | .error e => .error (Bytes.ofString "json: error calling MarshalJSON for type time.Time: " ++ e)

/-- A member tagged `omitempty`: left out when its value is empty. -/
def omitEmpty (name : String) (empty : Bool) (v : Json) : List (Bytes × Json) :=
  if empty then [] else [(Bytes.ofString name, v)]

/-! ## Trees that read back unchanged -/

/-- Every string and member name of the tree is valid UTF-8, so the writer
keeps it as it is. -/
def validText : Json → Bool
  | string s => valid s
  | array xs => validTextList xs
  | object ms => validTextMembers ms
  | _ => true
where
  validTextList : List Json → Bool
    | [] => true
    | x :: xs => validText x && validTextList xs
  validTextMembers : List (Bytes × Json) → Bool
    | [] => true
    | (k, v) :: ms => valid k && validText v && validTextMembers ms

theorem coerced_of_validText : ∀ (j : Json), j.validText → j.coerced = j
  | null, _ | bool _, _ | number _, _ => rfl
  | string s, h => by simp only [coerced, coerce_of_valid (by simpa [validText] using h)]
  | array xs, h => by rw [coerced, coercedList_of_valid xs h]
  | object ms, h => by rw [coerced, coercedMembers_of_valid ms h]
where
  coercedList_of_valid : ∀ xs, validText.validTextList xs → coerced.coercedList xs = xs
    | [], _ => rfl
    | x :: xs, h => by
      simp only [validText.validTextList, Bool.and_eq_true] at h
      rw [coerced.coercedList, coerced_of_validText x h.1, coercedList_of_valid xs h.2]
  coercedMembers_of_valid : ∀ ms, validText.validTextMembers ms → coerced.coercedMembers ms = ms
    | [], _ => rfl
    | (k, v) :: ms, h => by
      simp only [validText.validTextMembers, Bool.and_eq_true] at h
      rw [coerced.coercedMembers, coerce_of_valid h.1.1, coerced_of_validText v h.1.2,
        coercedMembers_of_valid ms h.2]

/-- A tree of integer literals and valid strings reads back as itself. -/
theorem decode_encode_of_validText {j : Json} (hj : j.wellFormed) (hv : j.validText) :
    decode (encode j) = some j := by
  rw [decode_encode hj, coerced_of_validText j hv]

theorem decode_encodeIndent_of_validText {j : Json} (hj : j.wellFormed) (hv : j.validText) :
    decode (encodeIndent j) = some j := by
  rw [decode_encodeIndent hj, coerced_of_validText j hv]

/-! ## Round trips of the Go types -/

@[simp] theorem decodeString_string (s old : Bytes) : decodeString (.string s) old = some s := rfl

theorem decodeBytes_encodeBytes (b old : Bytes) : decodeBytes (encodeBytes b) old = some b :=
  Base64.decode_encode b

theorem decodeUint_encodeUint {n bits : Nat} (h : n < 2 ^ bits) (hbits : bits ≤ 64) (old : Nat) :
    decodeUint bits (encodeUint n) old = some n := by
  have h64 : n < 2 ^ 64 := lt_of_lt_of_le h (Nat.pow_le_pow_right (by decide) hbits)
  simp [decodeUint, encodeUint, Strconv.parseUint_formatUint h64, h]

theorem decodeStringMap_encodeStringMap (m : GoMap Bytes) :
    decodeStringMap (encodeStringMap m) GoMap.empty = some m := by
  have hstep : ∀ (l : List (Bytes × Bytes)) (acc : GoMap Bytes),
      (l.map fun e => (e.1, Json.string e.2)).foldlM
        (fun m kv => (m.insert kv.1 ·) <$> decodeString kv.2 []) acc =
        some (l.foldl (fun acc e => acc.insert e.1 e.2) acc) := by
    intro l
    induction l with
    | nil => intro acc; rfl
    | cons e l ih => intro acc; simpa using ih (acc.insert e.1 e.2)
  simp only [encodeStringMap, decodeStringMap]
  rw [hstep, GoMap.foldl_insert_entries]

theorem decodeStrings_encodeStrings (xs : List Bytes) : decodeStrings (encodeStrings xs) [] = some xs := by
  have hstep : ∀ (xs old : List Bytes), decodeStrings.decodeElems (xs.map .string) old = some xs := by
    intro xs
    induction xs with
    | nil => intro _; rfl
    | cons x xs ih => intro old; simp [decodeStrings.decodeElems, ih]
  exact hstep xs []

theorem decodeTimestamp_encodeTimestamp {t : Time} (ht : t.Writable) (old : Option Time) :
    decodeTimestamp (encodeTimestamp t) old = some (some t.truncSec.rezone) := by
  show some <$> Time.parseRFC3339 (Time.appendFormatRFC3339 t false) = _
  rw [Time.parseRFC3339_appendFormatRFC3339_rezone ht]
  rfl

theorem encodeTime_of_inRange {t : Time} (ht : t.InRange) :
    encodeTime t = .ok (.string (Time.formatNano t)) := by
  unfold encodeTime
  split
  · rfl
  · rename_i e he
    rw [Time.marshalJSON_of_inRange ht] at he
    cases he

theorem decodeTime_formatNano {t : Time} (ht : t.InRange) (old : Time) :
    decodeTime (.string (Time.formatNano t)) old = some t :=
  Time.parseRFC3339_appendFormatRFC3339 ht true

theorem isNatLiteral_formatUint (n : Nat) : isNatLiteral (Strconv.formatUint n) := by
  obtain ⟨d, ds, hfmt, hd, h0, hds⟩ := Strconv.formatUint_shape n
  rw [hfmt]
  cases ds with
  | nil => simpa [isNatLiteral] using hd
  | cons e es => simpa [isNatLiteral, hd, h0 (List.cons_ne_nil e es)] using hds

theorem wellFormed_encodeUint (n : Nat) : (encodeUint n).wellFormed := by
  simp [encodeUint, wellFormed, isIntLiteral, isNatLiteral_formatUint]

theorem wellFormed_encodeInt (x : Int) : (encodeInt x).wellFormed := by
  by_cases hx : x < 0 <;>
    simp [encodeInt, Strconv.formatInt, hx, wellFormed, isIntLiteral, isNatLiteral_formatUint]

theorem decodeInt_encodeInt {x : Int} (hlo : -2 ^ 63 ≤ x) (hhi : x < 2 ^ 63) (old : Int) :
    decodeInt (encodeInt x) old = some x := by
  have hparse : Strconv.parseUint (Strconv.formatUint x.natAbs) 64 = some x.natAbs :=
    Strconv.parseUint_formatUint (by omega)
  obtain ⟨d, ds, hfmt, hd, -, -⟩ := Strconv.formatUint_shape x.natAbs
  have hd' : d ≠ 0x2D ∧ d ≠ 0x2B := by
    simp only [Bytes.isDigit, Bool.and_eq_true, decide_eq_true_eq] at hd
    constructor <;> (rintro rfl; revert hd; decide)
  by_cases hx : x < 0
  · simp only [decodeInt, encodeInt, Strconv.formatInt, hx, if_true, List.singleton_append,
      Strconv.parseInt, hparse, Option.some_bind]
    rw [if_pos (by omega)]
    congr 1
    omega
  · simp only [decodeInt, encodeInt, Strconv.formatInt, hx, if_false, List.nil_append]
    rw [hfmt] at hparse ⊢
    unfold Strconv.parseInt
    split
    · rename_i h; exact absurd (List.cons.inj h).1 hd'.1
    · rename_i h; exact absurd (List.cons.inj h).1 hd'.2
    · rw [hparse, Option.some_bind, if_pos (by omega)]
      congr 1
      omega

/-! ## Trees of the Go types hold integer literals only -/

@[simp] theorem wellFormedMembers_append (a b : List (Bytes × Json)) :
    wellFormed.wellFormedMembers (a ++ b) =
      (wellFormed.wellFormedMembers a && wellFormed.wellFormedMembers b) := by
  induction a with
  | nil => simp [wellFormed.wellFormedMembers]
  | cons m a ih => obtain ⟨k, v⟩ := m; simp [wellFormed.wellFormedMembers, ih, Bool.and_assoc]

@[simp] theorem wellFormedMembers_omitEmpty (name : String) (empty : Bool) (v : Json) :
    wellFormed.wellFormedMembers (omitEmpty name empty v) = (empty || v.wellFormed) := by
  cases empty <;> simp [omitEmpty, wellFormed.wellFormedMembers]

@[simp] theorem validTextMembers_append (a b : List (Bytes × Json)) :
    validText.validTextMembers (a ++ b) =
      (validText.validTextMembers a && validText.validTextMembers b) := by
  induction a with
  | nil => simp [validText.validTextMembers]
  | cons m a ih => obtain ⟨k, v⟩ := m; simp [validText.validTextMembers, ih, Bool.and_assoc]

@[simp] theorem wellFormed_string (s : Bytes) : (Json.string s).wellFormed := rfl

@[simp] theorem wellFormed_object (ms : List (Bytes × Json)) :
    (Json.object ms).wellFormed = wellFormed.wellFormedMembers ms := rfl

@[simp] theorem wellFormed_null : Json.null.wellFormed := rfl

@[simp] theorem validText_string (s : Bytes) : (Json.string s).validText = valid s := rfl

@[simp] theorem validText_null : Json.null.validText := rfl

@[simp] theorem validText_number (lit : Bytes) : (Json.number lit).validText := rfl

@[simp] theorem validText_object (ms : List (Bytes × Json)) :
    (Json.object ms).validText = validText.validTextMembers ms := rfl

@[simp] theorem decodeStruct_object {σ : Type} (field : Bytes → Json → σ → Option σ)
    (ms : List (Bytes × Json)) (s : σ) :
    decodeStruct field (.object ms) s = ms.foldlM (fun s kv => field kv.1 kv.2 s) s := rfl

@[simp] theorem wellFormed_encodeStringMap (m : GoMap Bytes) : (encodeStringMap m).wellFormed := by
  suffices ∀ l : List (Bytes × Bytes),
      wellFormed.wellFormedMembers (l.map fun e => (e.1, Json.string e.2)) from this m.entries
  intro l
  induction l with
  | nil => rfl
  | cons e l ih => simpa [wellFormed.wellFormedMembers] using ih

@[simp] theorem wellFormed_encodeStrings (xs : List Bytes) : (encodeStrings xs).wellFormed := by
  suffices ∀ l : List Bytes, wellFormed.wellFormedList (l.map Json.string) from this xs
  intro l
  induction l with
  | nil => rfl
  | cons x l ih => simpa [wellFormed.wellFormedList] using ih

/-- A map whose paths and values are valid UTF-8 is written unchanged. -/
theorem validText_encodeStringMap {m : GoMap Bytes} (h : ∀ e ∈ m.entries, valid e.1 ∧ valid e.2) :
    (encodeStringMap m).validText := by
  suffices ∀ l : List (Bytes × Bytes), (∀ e ∈ l, valid e.1 ∧ valid e.2) →
      validText.validTextMembers (l.map fun e => (e.1, Json.string e.2)) from this m.entries h
  intro l hl
  induction l with
  | nil => rfl
  | cons e l ih =>
    have he := hl e (List.mem_cons_self e l)
    simp [validText.validTextMembers, validText, he.1, he.2,
      ih fun x hx => hl x (List.mem_cons_of_mem e hx)]

end OmniVault.Json
