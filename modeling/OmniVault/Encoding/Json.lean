import OmniVault.Encoding.Base64

/-!
The text layer of `encoding/json`. A document is modelled as a tree whose
numbers keep their literal text, as Go's decoder does until it converts one
into a Go number. `encode` writes a tree as `json.Marshal` does (`indent =
none`) or as `json.MarshalIndent` with an empty prefix does; strings go
through `Utf8.coerce` and are escaped with `escapeHTML` on. The reader that
inverts it is in `OmniVault.Encoding.JsonDecode`.

Go's nesting-depth limit of 10000 is not modelled.
-/

namespace OmniVault

open Utf8

/-- A JSON document as `encoding/json` writes and scans it. -/
inductive Json where
  | null
  | bool (b : Bool)
  | number (literal : Bytes)
  | string (s : Bytes)
  | array (elems : List Json)
  | object (members : List (Bytes × Json))
  deriving Repr

namespace Json

/-- `hex` of `encode.go`. -/
def hexDigits : Bytes := Bytes.ofString "0123456789abcdef"

/-- `\u` followed by four lowercase hex digits of `c`. -/
def unicodeEscape (c : Nat) : Bytes :=
  [0x5C, 0x75] ++ [c / 4096 % 16, c / 256 % 16, c / 16 % 16, c % 16].map (hexDigits.getD · 0)

/-- How `appendString` writes one ASCII byte, HTML-escaping on. -/
def escapeAscii (b : UInt8) : Bytes :=
  if b = 0x22 ∨ b = 0x5C then [0x5C, b]
  else if b = 0x08 then [0x5C, 0x62]
  else if b = 0x0C then [0x5C, 0x66]
  else if b = 0x0A then [0x5C, 0x6E]
  else if b = 0x0D then [0x5C, 0x72]
  else if b = 0x09 then [0x5C, 0x74]
  else if b.toNat < 0x20 ∨ b = 0x3C ∨ b = 0x3E ∨ b = 0x26 then unicodeEscape b.toNat
  else [b]

/-- U+2028 and U+2029, which `appendString` escapes for JavaScript. -/
def lineSeparator : Bytes := [0xE2, 0x80, 0xA8]
def paragraphSeparator : Bytes := [0xE2, 0x80, 0xA9]

/-- How `appendString` writes one result of `utf8.DecodeRune`. -/
def escapePiece : Piece → Bytes
  | .invalid _ => unicodeEscape 0xFFFD
  | .rune [b] => escapeAscii b
  | .rune r =>
    if r = lineSeparator then unicodeEscape 0x2028
    else if r = paragraphSeparator then unicodeEscape 0x2029
    else r

/-- A Go string as a JSON string literal. -/
def quote (s : Bytes) : Bytes := 0x22 :: (pieces s).flatMap escapePiece ++ [0x22]

/-- The line break and indentation before an element at `depth`, or nothing
when writing compactly. -/
def newline (indent : Option Bytes) (depth : Nat) : Bytes :=
  match indent with
  | none => []
  | some step => 0x0A :: (List.replicate depth step).flatten

/-- The separator between a member's name and its value. -/
def colon (indent : Option Bytes) : Bytes :=
  match indent with
  | none => [0x3A]
  | some _ => [0x3A, 0x20]

/-- `json.Marshal` (`indent = none`) or `json.MarshalIndent(v, "", step)`
writing a value that sits at nesting `depth`. -/
def encodeAt (indent : Option Bytes) (depth : Nat) : Json → Bytes
  | null => Bytes.ofString "null"
  | bool true => Bytes.ofString "true"
  | bool false => Bytes.ofString "false"
  | number literal => literal
  | string s => quote s
  | array [] => Bytes.ofString "[]"
  | array xs => 0x5B :: elems indent (depth + 1) true xs ++ newline indent depth ++ [0x5D]
  | object [] => Bytes.ofString "{}"
  | object ms => 0x7B :: members indent (depth + 1) true ms ++ newline indent depth ++ [0x7D]
where
  /-- The elements of a non-empty array, each after its comma but the first. -/
  elems (indent : Option Bytes) (depth : Nat) (first : Bool) : List Json → Bytes
    | [] => []
    | x :: xs =>
      (if first then [] else [0x2C]) ++ newline indent depth ++ encodeAt indent depth x ++
        elems indent depth false xs
  /-- The members of a non-empty object, in the order given. -/
  members (indent : Option Bytes) (depth : Nat) (first : Bool) : List (Bytes × Json) → Bytes
    | [] => []
    | (k, v) :: ms =>
      (if first then [] else [0x2C]) ++ newline indent depth ++ quote k ++ colon indent ++
        encodeAt indent depth v ++ members indent depth false ms

/-- `json.Marshal`. -/
def encode (j : Json) : Bytes := encodeAt none 0 j

/-- `json.MarshalIndent(v, "", "  ")`. -/
def encodeIndent (j : Json) : Bytes := encodeAt (some (Bytes.ofString "  ")) 0 j

/-- The tree `encode` describes once every string has been through
`Utf8.coerce`: what a reader gets back. -/
def coerced : Json → Json
  | string s => string (coerce s)
  | array xs => array (coercedList xs)
  | object ms => object (coercedMembers ms)
  | j => j
where
  coercedList : List Json → List Json
    | [] => []
    | x :: xs => coerced x :: coercedList xs
  coercedMembers : List (Bytes × Json) → List (Bytes × Json)
    | [] => []
    | (k, v) :: ms => (coerce k, coerced v) :: coercedMembers ms

/-- A literal of the form `strconv` writes for a natural number: digits
without a leading zero. -/
def isNatLiteral : Bytes → Bool
  | [] => false
  | [d] => Bytes.isDigit d
  | d :: ds => Bytes.isDigit d && d != 0x30 && ds.all Bytes.isDigit

/-- A literal of the form `strconv` writes for an integer: a natural-number
literal, after a minus sign when the integer is negative. -/
def isIntLiteral (lit : Bytes) : Bool :=
  isNatLiteral lit || (lit.head? == some 0x2D && isNatLiteral lit.tail)

/-- The trees the store writes: every number is an integer literal. -/
def wellFormed : Json → Bool
  | number literal => isIntLiteral literal
  | array xs => wellFormedList xs
  | object ms => wellFormedMembers ms
  | _ => true
where
  wellFormedList : List Json → Bool
    | [] => true
    | x :: xs => wellFormed x && wellFormedList xs
  wellFormedMembers : List (Bytes × Json) → Bool
    | [] => true
    | (_, v) :: ms => wellFormed v && wellFormedMembers ms

end Json

end OmniVault
