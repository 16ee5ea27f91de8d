import OmniVault.Encoding.Json

/-!
The reading side of `encoding/json`: the scanner that checks a document's
syntax and the unquoting of string literals, over the results of
`utf8.DecodeRune` (`Utf8.pieces`). Structural characters are ASCII, so a
rejected byte outside a string is a syntax error, and inside a string it
reads as U+FFFD, as `unquote` does. Objects are kept as the list of members
in document order; what a duplicate name means is decided when a tree is
decoded into a Go value.

The parser runs on fuel; `decode` gives it twice the document's length, more
than any document needs, since every call either consumes a piece or is a
call from a list of values to its next value.
-/

namespace OmniVault.Json

open Utf8

/-- The piece of the ASCII byte `b`. -/
def byte (b : UInt8) : Piece := .rune [b]

/-- JSON whitespace: space, tab, line feed, carriage return. -/
def isSpace (p : Piece) : Bool :=
  p = byte 0x20 || p = byte 0x09 || p = byte 0x0A || p = byte 0x0D

def skipSpace (ps : List Piece) : List Piece := ps.dropWhile isSpace

def hexValue : Piece → Option Nat
  | .rune [b] =>
    if 0x30 ≤ b.toNat ∧ b.toNat ≤ 0x39 then some (b.toNat - 0x30)
    else if 0x61 ≤ b.toNat ∧ b.toNat ≤ 0x66 then some (b.toNat - 0x57)
    else if 0x41 ≤ b.toNat ∧ b.toNat ≤ 0x46 then some (b.toNat - 0x37)
    else none
  | _ => none

/-- `getu4`: the value of four hex digits. -/
def hex4 (p1 p2 p3 p4 : Piece) : Option Nat := do
  let a ← hexValue p1
  let b ← hexValue p2
  let c ← hexValue p3
  let d ← hexValue p4
  pure (a * 4096 + b * 256 + c * 16 + d)

/-- `utf8.EncodeRune`. -/
def encodeRune (r : Nat) : Bytes :=
  if r < 0x80 then [UInt8.ofNat r]
  else if r < 0x800 then [UInt8.ofNat (0xC0 + r / 64), UInt8.ofNat (0x80 + r % 64)]
  else if (0xD800 ≤ r ∧ r < 0xE000) ∨ 0x10FFFF < r then replacementChar
  else if r < 0x10000 then
    [UInt8.ofNat (0xE0 + r / 4096), UInt8.ofNat (0x80 + r / 64 % 64), UInt8.ofNat (0x80 + r % 64)]
  else
    [UInt8.ofNat (0xF0 + r / 262144), UInt8.ofNat (0x80 + r / 4096 % 64),
      UInt8.ofNat (0x80 + r / 64 % 64), UInt8.ofNat (0x80 + r % 64)]

/-- What one step of reading a string literal finds at the head of its body. -/
inductive StringStep where
  /-- The closing quote. -/
  | close
  /-- `out` is decoded from the next `width` pieces. -/
  | chunk (out : Bytes) (width : Nat)
  /-- A syntax error: a raw control byte, a bad escape, or the end of input. -/
  | error

/-- The simple escapes `\" \\ \/ \b \f \n \r \t`: the byte each stands for. -/
def simpleEscape (c : UInt8) : Option UInt8 :=
  if c = 0x22 ∨ c = 0x5C ∨ c = 0x2F then some c
  else if c = 0x62 then some 0x08
  else if c = 0x66 then some 0x0C
  else if c = 0x6E then some 0x0A
  else if c = 0x72 then some 0x0D
  else if c = 0x74 then some 0x09
  else none

/-- A `\uXXXX` escape: a surrogate pair is read as one rune, any other
surrogate as U+FFFD, as `unquote` does. -/
def unicodeStep (r : Nat) (rest : List Piece) : StringStep :=
  if 0xD800 ≤ r ∧ r < 0xE000 then
    match rest with
    | p1 :: p2 :: g1 :: g2 :: g3 :: g4 :: _ =>
      match hex4 g1 g2 g3 g4 with
      | some r2 =>
        if p1 = byte 0x5C ∧ p2 = byte 0x75 ∧ r < 0xDC00 ∧ 0xDC00 ≤ r2 ∧ r2 < 0xE000 then
          .chunk (encodeRune (0x10000 + (r - 0xD800) * 1024 + (r2 - 0xDC00))) 12
        else .chunk replacementChar 6
      | none => .chunk replacementChar 6
    | _ => .chunk replacementChar 6
  else .chunk (encodeRune r) 6

def stringStep : List Piece → StringStep
  | [] => .error
  | p :: rest =>
    if p = byte 0x22 then .close
    else if p = byte 0x5C then
      match rest with
      | .rune [c] :: rest' =>
        match simpleEscape c with
        | some b => .chunk [b] 2
        | none =>
          if c = 0x75 then
            match rest' with
            | h1 :: h2 :: h3 :: h4 :: rest'' =>
              match hex4 h1 h2 h3 h4 with
              | some r => unicodeStep r rest''
              | none => .error
            | _ => .error
          else .error
      | _ => .error
    else
      match p with
      | .rune [b] => if b.toNat < 0x20 then .error else .chunk [b] 1
      | .rune r => .chunk r 1
      | .invalid _ => .chunk replacementChar 1

/-- Reads a string body after skipping `skip` pieces of the escape just read;
the decoded bytes and what follows the closing quote. -/
def scanStringFrom : Nat → List Piece → Option (Bytes × List Piece)
  | _, [] => none
  | skip + 1, _ :: rest => scanStringFrom skip rest
  | 0, p :: rest =>
    match stringStep (p :: rest) with
    | .close => some ([], rest)
    | .chunk out width => (fun r => (out ++ r.1, r.2)) <$> scanStringFrom (width - 1) rest
    | .error => none

/-- A string literal's body, after its opening quote. -/
def scanString (ps : List Piece) : Option (Bytes × List Piece) := scanStringFrom 0 ps

def isDigit (p : Piece) : Bool :=
  match p with
  | .rune [b] => 0x30 ≤ b.toNat && b.toNat ≤ 0x39
  | _ => false

/-- The bytes of a run of ASCII pieces. -/
def asciiBytes (ps : List Piece) : Bytes := ps.flatMap Piece.bytes

/-- A run of digits, possibly empty. -/
def digits (ps : List Piece) : Bytes × List Piece :=
  (asciiBytes (ps.takeWhile isDigit), ps.dropWhile isDigit)

/-- An optional `-`. -/
def scanSign (ps : List Piece) : Bytes × List Piece :=
  match ps with
  | p :: r => if p = byte 0x2D then ([0x2D], r) else ([], ps)
  | [] => ([], [])

/-- The integer part: `0`, or a non-zero digit and more digits. -/
def scanWhole (ps : List Piece) : Option (Bytes × List Piece) :=
  match ps with
  | p :: r =>
    if p = byte 0x30 then some ([0x30], r)
    else if isDigit p then some (p.bytes ++ (digits r).1, (digits r).2)
    else none
  | [] => none

/-- An optional fraction: `.` and at least one digit. -/
def scanFraction (ps : List Piece) : Option (Bytes × List Piece) :=
  match ps with
  | p :: r =>
    if p = byte 0x2E then
      if (digits r).1 = [] then none else some (0x2E :: (digits r).1, (digits r).2)
    else some ([], ps)
  | [] => some ([], [])

/-- An optional exponent: `e` or `E`, an optional sign, at least one digit. -/
def scanExponent (ps : List Piece) : Option (Bytes × List Piece) :=
  match ps with
  | p :: r =>
    if p = byte 0x65 ∨ p = byte 0x45 then
      let sign : Bytes × List Piece := match r with
        | q :: r' => if q = byte 0x2B ∨ q = byte 0x2D then (q.bytes, r') else ([], r)
        | [] => ([], [])
      if (digits sign.2).1 = [] then none
      else some (p.bytes ++ sign.1 ++ (digits sign.2).1, (digits sign.2).2)
    else some ([], ps)
  | [] => some ([], [])

/-- A number literal by JSON's grammar: `-? (0 | [1-9][0-9]*) (.[0-9]+)? exponent?`. -/
def scanNumber (ps : List Piece) : Option (Bytes × List Piece) := do
  let whole ← scanWhole (scanSign ps).2
  let frac ← scanFraction whole.2
  let exp ← scanExponent frac.2
  pure ((scanSign ps).1 ++ whole.1 ++ frac.1 ++ exp.1, exp.2)

/-- The pieces of an ASCII keyword, when `ps` starts with them. -/
def keyword (word : Bytes) (ps : List Piece) : Option (List Piece) :=
  if (word.map byte).isPrefixOf ps then some (ps.drop word.length) else none

mutual

/-- One value, after optional whitespace. -/
def parseValue : Nat → List Piece → Option (Json × List Piece)
  | 0, _ => none
  | fuel + 1, ps =>
    match skipSpace ps with
    | [] => none
    | p :: rest =>
      if p = byte 0x7B then
        match skipSpace rest with
        | q :: rest' =>
          if q = byte 0x7D then some (.object [], rest')
          else (fun r => (.object r.1, r.2)) <$> parseMembers fuel rest
        | [] => none
      else if p = byte 0x5B then
        match skipSpace rest with
        | q :: rest' =>
          if q = byte 0x5D then some (.array [], rest')
          else (fun r => (.array r.1, r.2)) <$> parseElems fuel rest
        | [] => none
      else if p = byte 0x22 then (fun r => (.string r.1, r.2)) <$> scanString rest
      else match keyword (Bytes.ofString "true") (p :: rest) with
        | some rest' => some (.bool true, rest')
        | none => match keyword (Bytes.ofString "false") (p :: rest) with
          | some rest' => some (.bool false, rest')
          | none => match keyword (Bytes.ofString "null") (p :: rest) with
            | some rest' => some (.null, rest')
            | none => (fun r => (.number r.1, r.2)) <$> scanNumber (p :: rest)

/-- The elements of a non-empty array, up to and including its `]`. -/
def parseElems : Nat → List Piece → Option (List Json × List Piece)
  | 0, _ => none
  | fuel + 1, ps => do
    let (x, rest) ← parseValue fuel ps
    match skipSpace rest with
    | p :: rest' =>
      if p = byte 0x2C then (fun r => (x :: r.1, r.2)) <$> parseElems fuel rest'
      else if p = byte 0x5D then some ([x], rest')
      else none
    | [] => none

/-- The members of a non-empty object, up to and including its `}`. -/
def parseMembers : Nat → List Piece → Option (List (Bytes × Json) × List Piece)
  | 0, _ => none
  | fuel + 1, ps =>
    match skipSpace ps with
    | p :: rest =>
      if p = byte 0x22 then do
        let (k, rest) ← scanString rest
        match skipSpace rest with
        | q :: rest =>
          if q = byte 0x3A then do
            let (v, rest) ← parseValue fuel rest
            match skipSpace rest with
            | c :: rest' =>
              if c = byte 0x2C then (fun r => ((k, v) :: r.1, r.2)) <$> parseMembers fuel rest'
              else if c = byte 0x7D then some ([(k, v)], rest')
              else none
            | [] => none
          else none
        | [] => none
      else none
    | [] => none

end

/-- `json.Unmarshal`'s syntax layer: one value and nothing but whitespace
after it. -/
def decode (b : Bytes) : Option Json :=
  let ps := pieces b
  match parseValue (2 * ps.length + 2) ps with
  | some (j, rest) => if skipSpace rest = [] then some j else none
  | none => none

end OmniVault.Json
