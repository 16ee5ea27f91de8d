import OmniVault.Encoding.JsonDecode

/-!
`json.Unmarshal` reads back what `json.Marshal` and `json.MarshalIndent`
write, up to the UTF-8 coercion of every string: `decode (encodeAt ...) =
some j.coerced` for every tree whose numbers are natural-number literals.
The proof follows the writer: one lemma per piece of a string literal, one
for number literals, and one induction over the tree for values, arrays and
objects together.
-/

namespace OmniVault.Json

open Utf8

/-! ## Strings -/

theorem scanStringFrom_eq (skip : Nat) (ps : List Piece) :
    scanStringFrom skip ps = scanString (ps.drop skip) := by
  induction ps generalizing skip with
  | nil => cases skip <;> rfl
  | cons p ps ih =>
      cases skip with
      | zero => rfl
      | succ skip => simp [scanStringFrom, ih]

theorem scanString_close (rest : List Piece) : scanString (byte 0x22 :: rest) = some ([], rest) := by
  simp [scanString, scanStringFrom, stringStep]

theorem scanString_chunk {ps : List Piece} {out : Bytes} {width : Nat}
    (h : stringStep ps = .chunk out width) (hw : 1 ≤ width) :
    scanString ps = (fun r => (out ++ r.1, r.2)) <$> scanString (ps.drop width) := by
  match ps, h with
  | p :: rest, h =>
    obtain ⟨w, rfl⟩ : ∃ w, width = w + 1 := ⟨width - 1, by omega⟩
    have hstep : scanStringFrom 0 (p :: rest) =
        (fun r => (out ++ r.1, r.2)) <$> scanStringFrom w rest := by
      simp only [scanStringFrom, h]; rfl
    rw [scanString, hstep, scanStringFrom_eq]
    rfl

theorem pieces_ascii_map {s : Bytes} (hs : ∀ b ∈ s, b.toNat < 0x80) : pieces s = s.map byte :=
  pieces_ascii hs

theorem hexValue_hexDigit : ∀ d, d < 16 → hexValue (byte (hexDigits.getD d 0)) = some d := by
  decide

theorem hexDigit_ascii : ∀ d, d < 16 → (hexDigits.getD d 0).toNat < 0x80 := by
  decide

theorem unicodeEscape_ascii (c : Nat) : ∀ b ∈ unicodeEscape c, b.toNat < 0x80 := by
  have h16 : ∀ n, n % 16 < 16 := fun n => Nat.mod_lt _ (by decide)
  simp only [unicodeEscape, List.map_cons, List.map_nil, List.cons_append, List.nil_append,
    List.forall_mem_cons]
  exact ⟨by decide, by decide, hexDigit_ascii _ (h16 _), hexDigit_ascii _ (h16 _),
    hexDigit_ascii _ (h16 _), hexDigit_ascii _ (h16 _), by simp⟩

theorem pieces_unicodeEscape (c : Nat) :
    pieces (unicodeEscape c) = (unicodeEscape c).map byte :=
  pieces_ascii (unicodeEscape_ascii c)

theorem stringStep_u (h1 h2 h3 h4 : Piece) (more : List Piece) :
    stringStep (byte 0x5C :: byte 0x75 :: h1 :: h2 :: h3 :: h4 :: more) =
      match hex4 h1 h2 h3 h4 with
      | some r => unicodeStep r more
      | none => .error := rfl

/-- A `\uXXXX` escape of a code point that is not a surrogate reads as its UTF-8 bytes. -/
theorem stringStep_unicodeEscape {c : Nat} (hc : c < 0x10000) (hs : ¬(0xD800 ≤ c ∧ c < 0xE000))
    (more : List Piece) :
    stringStep (pieces (unicodeEscape c) ++ more) = .chunk (encodeRune c) 6 := by
  have h16 : ∀ n, n % 16 < 16 := fun n => Nat.mod_lt _ (by decide)
  have hhex : hex4 (byte (hexDigits.getD (c / 4096 % 16) 0)) (byte (hexDigits.getD (c / 256 % 16) 0))
      (byte (hexDigits.getD (c / 16 % 16) 0)) (byte (hexDigits.getD (c % 16) 0)) = some c := by
    simp only [hex4, hexValue_hexDigit _ (h16 _), Option.bind_eq_bind, Option.some_bind]
    congr 1
    omega
  rw [pieces_unicodeEscape]
  simp only [unicodeEscape, List.map_cons, List.map_nil, List.cons_append, List.nil_append]
  rw [stringStep_u, hhex]
  simp [unicodeStep, hs]

/-- A chunk of `w` pieces read in front of the rest of a body. -/
theorem scanString_of_step {ps more : List Piece} {out : Bytes} {w : Nat}
    (hstep : stringStep (ps ++ more) = .chunk out w) (hlen : ps.length = w) (hw : 1 ≤ w) :
    scanString (ps ++ more) = (fun r => (out ++ r.1, r.2)) <$> scanString more := by
  rw [scanString_chunk hstep hw, ← hlen, List.drop_left]

theorem encodeRune_ascii {b : UInt8} (hb : b.toNat < 0x80) : encodeRune b.toNat = [b] := by
  simp [encodeRune, hb, UInt8.toNat.inj (UInt8.toNat_ofNat_of_lt b.toNat_lt_size)]

theorem stringStep_plain {b : UInt8} (h1 : b ≠ 0x22) (h2 : b ≠ 0x5C) (h3 : 0x20 ≤ b.toNat)
    (more : List Piece) : stringStep (byte b :: more) = .chunk [b] 1 := by
  simp [stringStep, byte, h1, h2, Nat.not_lt.mpr h3]

/-- How a string literal reads back one ASCII byte of the original. -/
theorem scanString_escapeAscii {b : UInt8} (hb : b.toNat < 0x80) (more : List Piece) :
    scanString (pieces (escapeAscii b) ++ more) =
      (fun r => ([b] ++ r.1, r.2)) <$> scanString more := by
  unfold escapeAscii
  split
  · rename_i h
    rcases h with rfl | rfl <;> exact scanString_of_step rfl rfl (by decide)
  split
  · subst_vars; exact scanString_of_step rfl rfl (by decide)
  split
  · subst_vars; exact scanString_of_step rfl rfl (by decide)
  split
  · subst_vars; exact scanString_of_step rfl rfl (by decide)
  split
  · subst_vars; exact scanString_of_step rfl rfl (by decide)
  split
  · subst_vars; exact scanString_of_step rfl rfl (by decide)
  split
  · rw [scanString_of_step (stringStep_unicodeEscape (by omega) (by omega) more)
      (by rw [pieces_unicodeEscape, List.length_map]; rfl) (by decide), encodeRune_ascii hb]
  · rename_i hq _ _ _ _ _ hu
    have hplain : 0x20 ≤ b.toNat := by
      by_contra h; exact hu (.inl (by omega))
    rw [pieces_ascii (by simpa using hb)]
    exact scanString_of_step (stringStep_plain (fun h => hq (.inl h)) (fun h => hq (.inr h))
      hplain more) rfl (by decide)

theorem escapeAscii_ascii {b : UInt8} (hb : b.toNat < 0x80) :
    ∀ c ∈ escapeAscii b, c.toNat < 0x80 := by
  unfold escapeAscii
  split
  · rename_i h; rcases h with rfl | rfl <;> decide
  split
  · subst_vars; decide
  split
  · subst_vars; decide
  split
  · subst_vars; decide
  split
  · subst_vars; decide
  split
  · subst_vars; decide
  split
  · exact unicodeEscape_ascii _
  · simpa using hb

theorem valid_escapePiece {p : Piece} (hp : p.WellFormed) : valid (escapePiece p) := by
  cases p with
  | invalid b => exact valid_ascii (unicodeEscape_ascii _)
  | rune r =>
      match r, hp with
      | [b], hp => exact valid_ascii (escapeAscii_ascii (runeWidth_singleton hp))
      | b0 :: b1 :: t, hp =>
          simp only [escapePiece]
          split
          · exact valid_ascii (unicodeEscape_ascii _)
          split
          · exact valid_ascii (unicodeEscape_ascii _)
          · exact valid_rune hp

/-- How a string literal reads back one piece of the original. -/
theorem scanString_escapePiece {p : Piece} (hp : p.WellFormed) (more : List Piece) :
    scanString (pieces (escapePiece p) ++ more) =
      (fun r => (p.coerced ++ r.1, r.2)) <$> scanString more := by
  cases p with
  | invalid b =>
      rw [escapePiece, scanString_of_step (stringStep_unicodeEscape (by decide) (by decide) more)
        (by rw [pieces_unicodeEscape, List.length_map]; rfl) (by decide)]
      rfl
  | rune r =>
      match r, hp with
      | [b], hp => exact scanString_escapeAscii (runeWidth_singleton hp) more
      | b0 :: b1 :: t, hp =>
          simp only [escapePiece]
          split
          · rename_i h
            rw [scanString_of_step (stringStep_unicodeEscape (by decide) (by decide) more)
              (by rw [pieces_unicodeEscape, List.length_map]; rfl) (by decide), h]
            rfl
          split
          · rename_i h
            rw [scanString_of_step (stringStep_unicodeEscape (by decide) (by decide) more)
              (by rw [pieces_unicodeEscape, List.length_map]; rfl) (by decide), h]
            rfl
          · have hone : pieces (b0 :: b1 :: t) = [.rune (b0 :: b1 :: t)] := by
              simpa using pieces_rune_append hp []
            show scanString (pieces (b0 :: b1 :: t) ++ more) =
              (fun r => ((b0 :: b1 :: t) ++ r.1, r.2)) <$> scanString more
            rw [hone]
            exact scanString_of_step (by simp [stringStep, byte]) rfl (by simp)

/-- The body of a string literal reads back as the coerced pieces it was written from. -/
theorem scanString_escapePieces {ps : List Piece} (hps : ∀ p ∈ ps, p.WellFormed)
    (more : List Piece) :
    scanString (pieces (ps.flatMap escapePiece) ++ more) =
      (fun r => (ps.flatMap Piece.coerced ++ r.1, r.2)) <$> scanString more := by
  induction ps with
  | nil =>
      simp only [List.flatMap_nil, pieces_nil, List.nil_append]
      cases scanString more <;> rfl
  | cons p ps ih =>
      have hp := hps p (List.mem_cons_self p ps)
      rw [List.flatMap_cons, pieces_append_of_valid (valid_escapePiece hp), List.append_assoc,
        scanString_escapePiece hp, ih (fun q hq => hps q (List.mem_cons_of_mem p hq))]
      cases scanString more <;> simp

theorem valid_quoteBody (s : Bytes) : valid ((pieces s).flatMap escapePiece) := by
  have key : ∀ ps : List Piece, (∀ p ∈ ps, p.WellFormed) → valid (ps.flatMap escapePiece) := by
    intro ps hps
    induction ps with
    | nil => rfl
    | cons p ps ih =>
        exact valid_append (valid_escapePiece (hps p (List.mem_cons_self p ps)))
          (ih fun q hq => hps q (List.mem_cons_of_mem p hq))
  exact key _ fun p hp => wellFormed_of_mem_pieces hp

theorem pieces_quote (s : Bytes) :
    pieces (quote s) = byte 0x22 :: pieces ((pieces s).flatMap escapePiece) ++ [byte 0x22] := by
  rw [quote, List.cons_append, ← List.singleton_append,
    pieces_append_of_valid (valid_ascii (by decide)), pieces_append_of_valid (valid_quoteBody s)]
  rfl

theorem valid_quote (s : Bytes) : valid (quote s) :=
  show valid ([0x22] ++ ((pieces s).flatMap escapePiece ++ [0x22])) from
    valid_append (valid_ascii (by decide)) (valid_append (valid_quoteBody s) (valid_ascii (by decide)))

/-- A string literal `quote` wrote reads back as the coerced string. -/
theorem scanString_quote (s : Bytes) (more : List Piece) :
    scanString (pieces ((pieces s).flatMap escapePiece) ++ byte 0x22 :: more) =
      some (coerce s, more) := by
  rw [scanString_escapePieces (fun p hp => wellFormed_of_mem_pieces hp), scanString_close]
  simp [coerce]

/-! ## Numbers -/

/-- What may follow a value the writer wrote: the end, a separator, a
closing bracket, or whitespace. -/
def Delimited (rest : List Piece) : Prop :=
  ∀ p ∈ rest.head?, p = byte 0x2C ∨ p = byte 0x5D ∨ p = byte 0x7D ∨ isSpace p

theorem digits_append {ds : Bytes} (hds : ∀ d ∈ ds, Bytes.isDigit d) {rest : List Piece}
    (hrest : ∀ p ∈ rest.head?, isDigit p = false) :
    digits (ds.map byte ++ rest) = (ds, rest) := by
  induction ds with
  | nil =>
      match rest, hrest with
      | [], _ => rfl
      | p :: rest, hrest =>
          have hp : isDigit p = false := hrest p rfl
          simp [digits, asciiBytes, List.takeWhile_cons, List.dropWhile_cons, hp]
  | cons d ds ih =>
      have hd : isDigit (byte d) = true := by simpa [isDigit, byte, Bytes.isDigit] using hds d (by simp)
      have h := ih fun e he => hds e (List.mem_cons_of_mem d he)
      simp only [digits, asciiBytes, Prod.mk.injEq] at h ⊢
      rw [List.map_cons, List.cons_append, List.takeWhile_cons_of_pos hd,
        List.dropWhile_cons_of_pos hd, List.flatMap_cons, h.1, h.2]
      exact ⟨rfl, rfl⟩

theorem byte_inj {a b : UInt8} : byte a = byte b ↔ a = b := by simp [byte]

theorem isDigit_byte (b : UInt8) : isDigit (byte b) = Bytes.isDigit b := rfl

@[simp] theorem bytes_byte (b : UInt8) : (byte b).bytes = [b] := rfl

/-- Nothing that can continue a number follows a delimited value. -/
theorem delimited_head {rest : List Piece} (hrest : Delimited rest) :
    ∀ p ∈ rest.head?, isDigit p = false ∧ p ≠ byte 0x2E ∧ p ≠ byte 0x65 ∧ p ≠ byte 0x45 := by
  intro p hp
  rcases hrest p hp with rfl | rfl | rfl | h
  any_goals decide
  simp only [isSpace, Bool.or_eq_true, decide_eq_true_eq] at h
  rcases h with ((rfl | rfl) | rfl) | rfl <;> decide

theorem scanWhole_natLiteral {lit : Bytes} (hlit : isNatLiteral lit) {rest : List Piece}
    (hrest : ∀ p ∈ rest.head?, isDigit p = false) :
    scanWhole (lit.map byte ++ rest) = some (lit, rest) := by
  match lit, hlit with
  | [d], hd =>
      by_cases h0 : d = 0x30
      · subst h0; rfl
      · simp only [isNatLiteral] at hd
        have := digits_append (fun _ h => absurd h (List.not_mem_nil _)) hrest
        simp only [List.map_nil, List.nil_append] at this
        simp [scanWhole, byte_inj, h0, isDigit_byte, hd, this]
  | d :: e :: es, hlit =>
      simp only [isNatLiteral, Bool.and_eq_true, bne_iff_ne, ne_eq, List.all_eq_true] at hlit
      obtain ⟨⟨hd, h0⟩, hes⟩ := hlit
      have h := digits_append hes hrest
      simp only [List.map_cons, List.cons_append] at h
      simp [scanWhole, byte_inj, h0, isDigit_byte, hd, h]

theorem scanFraction_of_head {rest : List Piece} (h : ∀ p ∈ rest.head?, p ≠ byte 0x2E) :
    scanFraction rest = some ([], rest) := by
  cases rest with
  | nil => rfl
  | cons p r => simp [scanFraction, h p rfl]

theorem scanExponent_of_head {rest : List Piece}
    (h : ∀ p ∈ rest.head?, p ≠ byte 0x65 ∧ p ≠ byte 0x45) :
    scanExponent rest = some ([], rest) := by
  cases rest with
  | nil => rfl
  | cons p r => simp [scanExponent, (h p rfl).1, (h p rfl).2]

theorem isNatLiteral_head {d : UInt8} {ds : Bytes} (h : isNatLiteral (d :: ds)) :
    Bytes.isDigit d := by
  cases ds <;> simp_all [isNatLiteral]

theorem isIntLiteral_cases {lit : Bytes} (h : isIntLiteral lit) :
    isNatLiteral lit ∨ ∃ ds, lit = 0x2D :: ds ∧ isNatLiteral ds := by
  simp only [isIntLiteral, Bool.or_eq_true, Bool.and_eq_true, beq_iff_eq] at h
  rcases h with h | ⟨hhead, hds⟩
  · exact .inl h
  · match lit, hhead with
    | _ :: ds, rfl => exact .inr ⟨ds, rfl, hds⟩

/-- The literal of an integer reads back as itself. -/
theorem scanNumber_intLiteral {lit : Bytes} (hlit : isIntLiteral lit) {rest : List Piece}
    (hrest : Delimited rest) : scanNumber (lit.map byte ++ rest) = some (lit, rest) := by
  have hh := delimited_head hrest
  have hwhole := fun {ds} (hds : isNatLiteral ds) => scanWhole_natLiteral hds (fun p hp => (hh p hp).1)
  have hfrac := scanFraction_of_head (fun p hp => (hh p hp).2.1)
  have hexp := scanExponent_of_head (fun p hp => (hh p hp).2.2)
  rcases isIntLiteral_cases hlit with hnat | ⟨ds, rfl, hds⟩
  · have hsign : scanSign (lit.map byte ++ rest) = ([], lit.map byte ++ rest) := by
      match lit, hnat with
      | d :: _, hnat =>
          have hd := isNatLiteral_head hnat
          have : d ≠ 0x2D := by rintro rfl; exact absurd hd (by decide)
          simp [scanSign, byte_inj, this]
    simp [scanNumber, hsign, hwhole hnat, hfrac, hexp]
  · have hsign : scanSign (byte 0x2D :: (ds.map byte ++ rest)) = ([0x2D], ds.map byte ++ rest) := by
      simp [scanSign]
    simp [scanNumber, hsign, hwhole hds, hfrac, hexp]

/-! ## Layout -/

/-- The indentation steps the writer is given: runs of spaces. -/
def Layout (indent : Option Bytes) : Prop := ∀ step, indent = some step → ∀ b ∈ step, b = 0x20

theorem layout_none : Layout none := fun _ h => nomatch h

theorem layout_indent : Layout (some (Bytes.ofString "  ")) := by
  rintro _ ⟨⟩ b hb
  have hstep : Bytes.ofString "  " = [0x20, 0x20] := by decide
  simpa [hstep] using hb

variable {indent : Option Bytes}

theorem newline_blank (h : Layout indent) (d : Nat) :
    ∀ b ∈ newline indent d, b = 0x0A ∨ b = 0x20 := by
  intro b hb
  match indent, h with
  | none, _ => simp [newline] at hb
  | some step, h =>
      simp only [newline, List.mem_cons, List.mem_flatten, List.mem_replicate] at hb
      rcases hb with rfl | ⟨l, ⟨_, rfl⟩, hl⟩
      · exact .inl rfl
      · exact .inr (h _ rfl b hl)

theorem colon_blank : ∃ sp, colon indent = 0x3A :: sp ∧ ∀ b ∈ sp, b = 0x0A ∨ b = 0x20 := by
  cases indent with
  | none => exact ⟨[], rfl, by simp⟩
  | some _ => exact ⟨[0x20], rfl, by simp⟩

theorem ascii_of_blank {sp : Bytes} (h : ∀ b ∈ sp, b = 0x0A ∨ b = 0x20) :
    ∀ b ∈ sp, b.toNat < 0x80 := fun b hb => by rcases h b hb with rfl | rfl <;> decide

theorem pieces_ascii_cons {b : UInt8} (hb : b.toNat < 0x80) (t : Bytes) :
    pieces (b :: t) = byte b :: pieces t := by
  have hone : ∀ c ∈ [b], c.toNat < 0x80 := by simpa using hb
  rw [← List.singleton_append, pieces_append_of_valid (valid_ascii hone), pieces_ascii_map hone]
  rfl

theorem skipSpace_blank {sp : Bytes} (h : ∀ b ∈ sp, b = 0x0A ∨ b = 0x20) (ps : List Piece) :
    skipSpace (pieces sp ++ ps) = skipSpace ps := by
  rw [pieces_ascii_map (ascii_of_blank h)]
  induction sp with
  | nil => rfl
  | cons b sp ih =>
      have hb : isSpace (byte b) = true := by rcases h b (by simp) with rfl | rfl <;> rfl
      simp only [skipSpace, List.map_cons, List.cons_append, List.dropWhile_cons_of_pos hb] at ih ⊢
      exact ih fun c hc => h c (List.mem_cons_of_mem b hc)

theorem parseValue_blank {sp : Bytes} (h : ∀ b ∈ sp, b = 0x0A ∨ b = 0x20) (fuel : Nat)
    (ps : List Piece) : parseValue fuel (pieces sp ++ ps) = parseValue fuel ps := by
  cases fuel with
  | zero => rfl
  | succ f => simp only [parseValue, skipSpace_blank h]

theorem skipSpace_cons {p : Piece} (hp : isSpace p = false) (ps : List Piece) :
    skipSpace (p :: ps) = p :: ps :=
  List.dropWhile_cons_of_neg (by simp [hp])

/-! ## Values -/

theorem ofString_null : Bytes.ofString "null" = [0x6E, 0x75, 0x6C, 0x6C] := by decide
theorem ofString_true : Bytes.ofString "true" = [0x74, 0x72, 0x75, 0x65] := by decide
theorem ofString_false : Bytes.ofString "false" = [0x66, 0x61, 0x6C, 0x73, 0x65] := by decide
theorem ofString_brackets : Bytes.ofString "[]" = [0x5B, 0x5D] := by decide
theorem ofString_braces : Bytes.ofString "{}" = [0x7B, 0x7D] := by decide

theorem isNatLiteral_digits {lit : Bytes} (h : isNatLiteral lit) : ∀ b ∈ lit, Bytes.isDigit b := by
  match lit, h with
  | [d], h => simpa [isNatLiteral] using h
  | d :: e :: es, h =>
      simp only [isNatLiteral, Bool.and_eq_true, List.all_eq_true] at h
      simpa [h.1.1] using h.2

/-- Every byte of an integer literal is a digit or its minus sign. -/
theorem isIntLiteral_bytes {lit : Bytes} (h : isIntLiteral lit) :
    ∀ b ∈ lit, Bytes.isDigit b ∨ b = 0x2D := by
  rcases isIntLiteral_cases h with h | ⟨ds, rfl, hds⟩
  · exact fun b hb => .inl (isNatLiteral_digits h b hb)
  · rintro b (_ | ⟨_, hb⟩)
    · exact .inr rfl
    · exact .inl (isNatLiteral_digits hds b hb)

theorem isIntLiteral_ascii {lit : Bytes} (h : isIntLiteral lit) : ∀ b ∈ lit, b.toNat < 0x80 := by
  intro b hb
  rcases isIntLiteral_bytes h b hb with hd | rfl
  · simp only [Bytes.isDigit, Bool.and_eq_true, decide_eq_true_eq] at hd
    omega
  · decide

/-- What distinguishes the first byte of a number from the bytes the reader
dispatches on. -/
theorem lead_ne {c : UInt8} (hc : Bytes.isDigit c ∨ c = 0x2D) :
    c.toNat < 0x80 ∧ isSpace (byte c) = false ∧ c ≠ 0x5D ∧ c ≠ 0x7B ∧ c ≠ 0x5B ∧ c ≠ 0x22 ∧
      c ≠ 0x74 ∧ c ≠ 0x66 ∧ c ≠ 0x6E := by
  rcases hc with hc | rfl
  · simp only [Bytes.isDigit, Bool.and_eq_true, decide_eq_true_eq] at hc
    simp only [isSpace, byte_inj, Bool.or_eq_false_iff, decide_eq_false_iff_not]
    refine ⟨by omega, ⟨⟨⟨?_, ?_⟩, ?_⟩, ?_⟩, ?_, ?_, ?_, ?_, ?_, ?_, ?_⟩ <;>
      (rintro rfl; revert hc; decide)
  · decide

/-- The first byte of every value the writer writes: ASCII, neither
whitespace nor a closing bracket. -/
theorem encodeAt_head {j : Json} (hj : j.wellFormed) (d : Nat) :
    ∃ b t, encodeAt indent d j = b :: t ∧ b.toNat < 0x80 ∧ isSpace (byte b) = false ∧
      b ≠ 0x5D := by
  match j, hj with
  | .null, _ => exact ⟨0x6E, _, ofString_null, by decide, rfl, by decide⟩
  | .bool true, _ => exact ⟨0x74, _, ofString_true, by decide, rfl, by decide⟩
  | .bool false, _ => exact ⟨0x66, _, ofString_false, by decide, rfl, by decide⟩
  | .number (c :: cs), hj =>
      have hc := lead_ne (isIntLiteral_bytes hj c (List.mem_cons_self c cs))
      exact ⟨c, cs, rfl, hc.1, hc.2.1, hc.2.2.1⟩
  | .string s, _ => exact ⟨0x22, _, rfl, by decide, rfl, by decide⟩
  | .array [], _ => exact ⟨0x5B, _, ofString_brackets, by decide, rfl, by decide⟩
  | .array (_ :: _), _ => exact ⟨0x5B, _, rfl, by decide, rfl, by decide⟩
  | .object [], _ => exact ⟨0x7B, _, ofString_braces, by decide, rfl, by decide⟩
  | .object (_ :: _), _ => exact ⟨0x7B, _, rfl, by decide, rfl, by decide⟩

theorem valid_blank {sp : Bytes} (h : ∀ b ∈ sp, b = 0x0A ∨ b = 0x20) : valid sp :=
  valid_ascii (ascii_of_blank h)

theorem valid_colon : valid (colon indent) := by
  cases indent with
  | none => decide
  | some _ => exact (by decide : valid [0x3A, 0x20])

theorem valid_separator (first : Bool) : valid (if first then [] else [0x2C]) := by
  cases first <;> decide

/-- Everything the writer writes is valid UTF-8. -/
theorem valid_encodeAt (h : Layout indent) :
    ∀ (d : Nat) (j : Json), j.wellFormed → valid (encodeAt indent d j)
  | _, .null, _ => (by decide : valid (Bytes.ofString "null"))
  | _, .bool true, _ => (by decide : valid (Bytes.ofString "true"))
  | _, .bool false, _ => (by decide : valid (Bytes.ofString "false"))
  | _, .number _, hj => valid_ascii (isIntLiteral_ascii hj)
  | _, .string s, _ => valid_quote s
  | _, .array [], _ => (by decide : valid (Bytes.ofString "[]"))
  | d, .array (x :: xs), hj =>
      show valid ([0x5B] ++ encodeAt.elems indent (d + 1) true (x :: xs) ++
          newline indent d ++ [0x5D]) from
        valid_append (valid_append (valid_append (by decide) (valid_elems (d + 1) true (x :: xs) hj))
          (valid_blank (newline_blank h d))) (by decide)
  | _, .object [], _ => (by decide : valid (Bytes.ofString "{}"))
  | d, .object (m :: ms), hj =>
      show valid ([0x7B] ++ encodeAt.members indent (d + 1) true (m :: ms) ++
          newline indent d ++ [0x7D]) from
        valid_append (valid_append (valid_append (by decide)
          (valid_members (d + 1) true (m :: ms) hj)) (valid_blank (newline_blank h d))) (by decide)
where
  valid_elems (d : Nat) (first : Bool) :
      ∀ xs : List Json, wellFormed.wellFormedList xs → valid (encodeAt.elems indent d first xs)
    | [], _ => rfl
    | x :: xs, hxs => by
        simp only [wellFormed.wellFormedList, Bool.and_eq_true] at hxs
        exact valid_append (valid_append (valid_append (valid_separator first)
          (valid_blank (newline_blank h d))) (valid_encodeAt h d x hxs.1))
          (valid_elems d false xs hxs.2)
  valid_members (d : Nat) (first : Bool) :
      ∀ ms : List (Bytes × Json), wellFormed.wellFormedMembers ms →
        valid (encodeAt.members indent d first ms)
    | [], _ => rfl
    | (k, v) :: ms, hms => by
        simp only [wellFormed.wellFormedMembers, Bool.and_eq_true] at hms
        exact valid_append (valid_append (valid_append (valid_append (valid_append
          (valid_separator first) (valid_blank (newline_blank h d))) (valid_quote k))
          valid_colon) (valid_encodeAt h d v hms.1))
          (valid_members d false ms hms.2)

/-! ### The writer's output as pieces -/

theorem pieces_encodeAt_array (h : Layout indent) {x : Json} {xs : List Json}
    (hxs : wellFormed.wellFormedList (x :: xs)) (d : Nat) :
    pieces (encodeAt indent d (array (x :: xs))) =
      byte 0x5B :: (pieces (encodeAt.elems indent (d + 1) true (x :: xs)) ++
        (pieces (newline indent d) ++ [byte 0x5D])) := by
  have henc : encodeAt indent d (array (x :: xs)) =
      0x5B :: (encodeAt.elems indent (d + 1) true (x :: xs) ++ (newline indent d ++ [0x5D])) := by
    simp [encodeAt]
  rw [henc, pieces_ascii_cons (by decide),
    pieces_append_of_valid (valid_encodeAt.valid_elems h _ _ _ hxs),
    pieces_append_of_valid (valid_blank (newline_blank h d))]
  rfl

theorem pieces_encodeAt_object (h : Layout indent) {m : Bytes × Json} {ms : List (Bytes × Json)}
    (hms : wellFormed.wellFormedMembers (m :: ms)) (d : Nat) :
    pieces (encodeAt indent d (object (m :: ms))) =
      byte 0x7B :: (pieces (encodeAt.members indent (d + 1) true (m :: ms)) ++
        (pieces (newline indent d) ++ [byte 0x7D])) := by
  have henc : encodeAt indent d (object (m :: ms)) =
      0x7B :: (encodeAt.members indent (d + 1) true (m :: ms) ++ (newline indent d ++ [0x7D])) := by
    simp [encodeAt]
  rw [henc, pieces_ascii_cons (by decide),
    pieces_append_of_valid (valid_encodeAt.valid_members h _ _ _ hms),
    pieces_append_of_valid (valid_blank (newline_blank h d))]
  rfl

theorem pieces_elems_true (h : Layout indent) {x : Json} (hx : x.wellFormed) (d : Nat)
    (xs : List Json) (more : List Piece) :
    pieces (encodeAt.elems indent d true (x :: xs)) ++ more =
      pieces (newline indent d) ++ (pieces (encodeAt indent d x) ++
        (pieces (encodeAt.elems indent d false xs) ++ more)) := by
  have hnl := valid_blank (newline_blank h d)
  simp only [encodeAt.elems, if_true, List.nil_append]
  rw [pieces_append_of_valid (valid_append hnl (valid_encodeAt h d x hx)),
    pieces_append_of_valid hnl]
  simp only [List.append_assoc]

theorem pieces_members_true (h : Layout indent) (k : Bytes) {v : Json} (hv : v.wellFormed)
    (d : Nat) (ms : List (Bytes × Json)) (more : List Piece) :
    pieces (encodeAt.members indent d true ((k, v) :: ms)) ++ more =
      pieces (newline indent d) ++ (byte 0x22 :: (pieces ((pieces k).flatMap escapePiece) ++
        (byte 0x22 :: (pieces (colon indent) ++ (pieces (encodeAt indent d v) ++
          (pieces (encodeAt.members indent d false ms) ++ more)))))) := by
  have hnl := valid_blank (newline_blank h d)
  simp only [encodeAt.members, if_true, List.nil_append]
  rw [pieces_append_of_valid (valid_append (valid_append (valid_append hnl (valid_quote k))
      valid_colon) (valid_encodeAt h d v hv)),
    pieces_append_of_valid (valid_append (valid_append hnl (valid_quote k)) valid_colon),
    pieces_append_of_valid (valid_append hnl (valid_quote k)),
    pieces_append_of_valid hnl, pieces_quote]
  simp only [List.append_assoc, List.cons_append, List.singleton_append, List.nil_append]

theorem elems_false_of_ne {d : Nat} {xs : List Json} (hne : xs ≠ []) :
    encodeAt.elems indent d false xs = 0x2C :: encodeAt.elems indent d true xs := by
  obtain ⟨y, ys, rfl⟩ := List.exists_cons_of_ne_nil hne
  rfl

theorem members_false_of_ne {d : Nat} {ms : List (Bytes × Json)} (hne : ms ≠ []) :
    encodeAt.members indent d false ms = 0x2C :: encodeAt.members indent d true ms := by
  obtain ⟨⟨k, v⟩, ms, rfl⟩ := List.exists_cons_of_ne_nil hne
  rfl

/-! ### The reader's steps -/

theorem parseValue_open_bracket {X r : List Piece} {q : Piece} (hX : skipSpace X = q :: r)
    (hq : q ≠ byte 0x5D) (f : Nat) :
    parseValue (f + 1) (byte 0x5B :: X) = (fun r => (array r.1, r.2)) <$> parseElems f X := by
  simp +decide [parseValue, skipSpace_cons, hX, hq]

theorem parseValue_open_brace {X r : List Piece} {q : Piece} (hX : skipSpace X = q :: r)
    (hq : q ≠ byte 0x7D) (f : Nat) :
    parseValue (f + 1) (byte 0x7B :: X) = (fun r => (object r.1, r.2)) <$> parseMembers f X := by
  simp +decide [parseValue, skipSpace_cons, hX, hq]

theorem parseElems_last {g : Nat} {ps r rest : List Piece} {x : Json}
    (hx : parseValue g ps = some (x, r)) (hr : skipSpace r = byte 0x5D :: rest) :
    parseElems (g + 1) ps = some ([x], rest) := by
  simp +decide [parseElems, hx, hr]

theorem parseElems_comma {g : Nat} {ps r r' : List Piece} {x : Json}
    (hx : parseValue g ps = some (x, r)) (hr : skipSpace r = byte 0x2C :: r') :
    parseElems (g + 1) ps = (fun r => (x :: r.1, r.2)) <$> parseElems g r' := by
  simp [parseElems, hx, hr]

theorem parseMembers_last {g : Nat} {ps ps' r1 r2 r3 rest : List Piece} {k : Bytes} {v : Json}
    (hp : skipSpace ps = byte 0x22 :: ps') (hk : scanString ps' = some (k, r1))
    (hc : skipSpace r1 = byte 0x3A :: r2) (hv : parseValue g r2 = some (v, r3))
    (hr : skipSpace r3 = byte 0x7D :: rest) : parseMembers (g + 1) ps = some ([(k, v)], rest) := by
  simp +decide [parseMembers, hp, hk, hc, hv, hr]

theorem parseMembers_comma {g : Nat} {ps ps' r1 r2 r3 r' : List Piece} {k : Bytes} {v : Json}
    (hp : skipSpace ps = byte 0x22 :: ps') (hk : scanString ps' = some (k, r1))
    (hc : skipSpace r1 = byte 0x3A :: r2) (hv : parseValue g r2 = some (v, r3))
    (hr : skipSpace r3 = byte 0x2C :: r') :
    parseMembers (g + 1) ps = (fun r => ((k, v) :: r.1, r.2)) <$> parseMembers g r' := by
  simp [parseMembers, hp, hk, hc, hv, hr]

theorem delimited_comma (ps : List Piece) : Delimited (byte 0x2C :: ps) := fun _ hp =>
  .inl (Option.mem_some_iff.mp hp).symm

/-- What closes an array or object the writer wrote: a line break (or
nothing), then the bracket. -/
theorem close_facts (h : Layout indent) (d : Nat) (c : UInt8) (hc : c = 0x5D ∨ c = 0x7D)
    (rest : List Piece) :
    skipSpace (pieces (newline indent d) ++ byte c :: rest) = byte c :: rest ∧
      Delimited (pieces (newline indent d) ++ byte c :: rest) := by
  refine ⟨?_, ?_⟩
  · rw [skipSpace_blank (newline_blank h d)]
    exact skipSpace_cons (by rcases hc with rfl | rfl <;> rfl) rest
  · rw [pieces_ascii_map (ascii_of_blank (newline_blank h d))]
    intro p hp
    cases hnl : newline indent d with
    | nil => rcases hc with rfl | rfl <;> simp_all
    | cons b bs =>
        rw [hnl] at hp
        obtain rfl := Option.mem_some_iff.mp hp
        have hb := newline_blank h d b (by simp [hnl])
        exact .inr (.inr (.inr (by rcases hb with rfl | rfl <;> rfl)))

/-- The reader reads back every value the writer writes, coerced, from any
nesting depth, given fuel beyond the value's length and a delimiter after it. -/
theorem parseValue_encodeAt (h : Layout indent) :
    ∀ (d : Nat) (j : Json), j.wellFormed → ∀ (fuel : Nat) (rest : List Piece),
      (pieces (encodeAt indent d j)).length < fuel → Delimited rest →
      parseValue fuel (pieces (encodeAt indent d j) ++ rest) = some (j.coerced, rest)
  | _, _, _, 0, _, hlen, _ => absurd hlen (Nat.not_lt_zero _)
  | _, .null, _, f + 1, rest, _, _ => by
      rw [show pieces (encodeAt indent _ null) = [byte 0x6E, byte 0x75, byte 0x6C, byte 0x6C] by
        simp only [encodeAt, ofString_null]; decide]
      simp +decide [parseValue, skipSpace, keyword, ofString_true, ofString_false, ofString_null,
        coerced]
  | _, .bool true, _, f + 1, rest, _, _ => by
      rw [show pieces (encodeAt indent _ (bool true)) =
          [byte 0x74, byte 0x72, byte 0x75, byte 0x65] by simp only [encodeAt, ofString_true]; decide]
      simp +decide [parseValue, skipSpace, keyword, ofString_true, coerced]
  | _, .bool false, _, f + 1, rest, _, _ => by
      rw [show pieces (encodeAt indent _ (bool false)) =
          [byte 0x66, byte 0x61, byte 0x6C, byte 0x73, byte 0x65] by
        simp only [encodeAt, ofString_false]; decide]
      simp +decide [parseValue, skipSpace, keyword, ofString_true, ofString_false, coerced]
  | _, .number lit, hj, f + 1, rest, _, hrest => by
      match lit, hj with
      | c :: cs, hj =>
        obtain ⟨-, hspace, -, h7B, h5B, h22, h74, h66, h6E⟩ :=
          lead_ne (isIntLiteral_bytes hj c (List.mem_cons_self c cs))
        have hn := scanNumber_intLiteral hj hrest
        simp only [List.map_cons, List.cons_append] at hn
        rw [show encodeAt indent _ (number (c :: cs)) = c :: cs from rfl,
          pieces_ascii_map (isIntLiteral_ascii hj),
          List.map_cons, List.cons_append]
        simp only [parseValue, keyword, ofString_true, ofString_false, ofString_null]
        simp [skipSpace_cons hspace, byte_inj, h7B, h5B, h22, List.isPrefixOf, h74.symm, h66.symm,
          h6E.symm, hn, coerced]
  | _, .string s, _, f + 1, rest, _, _ => by
      rw [show encodeAt indent _ (string s) = quote s from rfl, pieces_quote]
      simp only [List.cons_append, List.append_assoc, List.singleton_append]
      simp +decide [parseValue, skipSpace_cons, scanString_quote, coerced]
  | _, .array [], _, f + 1, rest, _, _ => by
      rw [show pieces (encodeAt indent _ (array [])) = [byte 0x5B, byte 0x5D] by
        simp only [encodeAt, ofString_brackets]; decide]
      simp +decide [parseValue, skipSpace, coerced, coerced.coercedList]
  | _, .object [], _, f + 1, rest, _, _ => by
      rw [show pieces (encodeAt indent _ (object [])) = [byte 0x7B, byte 0x7D] by
        simp only [encodeAt, ofString_braces]; decide]
      simp +decide [parseValue, skipSpace, coerced, coerced.coercedMembers]
  | d, .array (x :: xs), hj, f + 1, rest, hlen, _ => by
      have hx : x.wellFormed := by
        simp only [wellFormed, wellFormed.wellFormedList, Bool.and_eq_true] at hj; exact hj.1
      obtain ⟨b, t, hbt, hb, hbs, hb5D⟩ := @encodeAt_head indent x hx (d + 1)
      obtain ⟨hskip, hdelim⟩ := close_facts h d 0x5D (.inl rfl) rest
      obtain ⟨r, hX⟩ : ∃ r, skipSpace (pieces (encodeAt.elems indent (d + 1) true (x :: xs)) ++
          (pieces (newline indent d) ++ byte 0x5D :: rest)) = byte b :: r := ⟨_, by
        rw [pieces_elems_true h hx, skipSpace_blank (newline_blank h (d + 1)), hbt,
          pieces_ascii_cons hb, List.cons_append, skipSpace_cons hbs]⟩
      rw [pieces_encodeAt_array h hj] at hlen ⊢
      simp only [List.length_cons, List.length_append, List.length_nil] at hlen
      simp only [List.cons_append, List.append_assoc, List.nil_append]
      rw [parseValue_open_bracket hX (fun e => hb5D (byte_inj.mp e)),
        parseElems_elems (d + 1) (x :: xs) (List.cons_ne_nil x xs) hj f _ rest (by omega) hskip
          hdelim]
      rfl
  | d, .object ((k, v) :: ms), hj, f + 1, rest, hlen, _ => by
      have hms : wellFormed.wellFormedMembers ((k, v) :: ms) := hj
      have hv : v.wellFormed := by
        simp only [wellFormed.wellFormedMembers, Bool.and_eq_true] at hms; exact hms.1
      obtain ⟨hskip, hdelim⟩ := close_facts h d 0x7D (.inr rfl) rest
      obtain ⟨r, hX⟩ : ∃ r, skipSpace (pieces (encodeAt.members indent (d + 1) true ((k, v) :: ms)) ++
          (pieces (newline indent d) ++ byte 0x7D :: rest)) = byte 0x22 :: r := ⟨_, by
        rw [pieces_members_true h k hv, skipSpace_blank (newline_blank h (d + 1)),
          skipSpace_cons (by decide)]⟩
      rw [pieces_encodeAt_object h hms] at hlen ⊢
      simp only [List.length_cons, List.length_append, List.length_nil] at hlen
      simp only [List.cons_append, List.append_assoc, List.nil_append]
      rw [parseValue_open_brace hX (by decide),
        parseMembers_members (d + 1) ((k, v) :: ms) (List.cons_ne_nil _ ms) hms f _ rest
          (by omega) hskip hdelim]
      rfl
where
  parseElems_elems (d : Nat) :
      ∀ (xs : List Json), xs ≠ [] → wellFormed.wellFormedList xs →
        ∀ (fuel : Nat) (close rest : List Piece),
        (pieces (encodeAt.elems indent d true xs)).length + 2 ≤ fuel →
        skipSpace close = byte 0x5D :: rest → Delimited close →
        parseElems fuel (pieces (encodeAt.elems indent d true xs) ++ close) =
          some (coerced.coercedList xs, rest)
    | [], hne, _, _, _, _, _, _, _ => absurd rfl hne
    | _ :: _, _, _, 0, _, _, hlen, _, _ => absurd hlen (by omega)
    | x :: xs, _, hxs, g + 1, close, rest, hlen, hclose, hdelim => by
        simp only [wellFormed.wellFormedList, Bool.and_eq_true] at hxs
        have hl := congrArg List.length (pieces_elems_true h hxs.1 d xs [])
        simp only [List.length_append, List.append_nil] at hl
        have hv : ∀ tail, Delimited (pieces (encodeAt.elems indent d false xs) ++ tail) →
            parseValue g (pieces (encodeAt.elems indent d true (x :: xs)) ++ tail) =
              some (x.coerced, pieces (encodeAt.elems indent d false xs) ++ tail) := fun tail ht => by
          rw [pieces_elems_true h hxs.1, parseValue_blank (newline_blank h d)]
          exact parseValue_encodeAt h d x hxs.1 g _ (by omega) ht
        by_cases hne : xs = []
        · subst hne
          exact parseElems_last (hv close hdelim) hclose
        · have hT : pieces (encodeAt.elems indent d false xs) ++ close =
              byte 0x2C :: (pieces (encodeAt.elems indent d true xs) ++ close) := by
            rw [elems_false_of_ne hne, pieces_ascii_cons (by decide)]; rfl
          have hTl := congrArg List.length hT
          simp only [List.length_append, List.length_cons] at hTl
          rw [parseElems_comma (hv close (hT ▸ delimited_comma _)) (by rw [hT]; exact skipSpace_cons (by decide) _),
            parseElems_elems d xs hne hxs.2 g close rest (by omega) hclose hdelim]
          rfl
  parseMembers_members (d : Nat) :
      ∀ (ms : List (Bytes × Json)), ms ≠ [] → wellFormed.wellFormedMembers ms →
        ∀ (fuel : Nat) (close rest : List Piece),
        (pieces (encodeAt.members indent d true ms)).length + 2 ≤ fuel →
        skipSpace close = byte 0x7D :: rest → Delimited close →
        parseMembers fuel (pieces (encodeAt.members indent d true ms) ++ close) =
          some (coerced.coercedMembers ms, rest)
    | [], hne, _, _, _, _, _, _, _ => absurd rfl hne
    | _ :: _, _, _, 0, _, _, hlen, _, _ => absurd hlen (by omega)
    | (k, v) :: ms, _, hms, g + 1, close, rest, hlen, hclose, hdelim => by
        simp only [wellFormed.wellFormedMembers, Bool.and_eq_true] at hms
        obtain ⟨sp, hsp, hblank⟩ := @colon_blank indent
        have hsplit := pieces_members_true h k hms.1 d ms close
        have hl := congrArg List.length (pieces_members_true h k hms.1 d ms [])
        rw [hsp, pieces_ascii_cons (by decide)] at hsplit hl
        simp only [List.cons_append] at hsplit
        simp only [List.length_append, List.length_cons, List.append_nil] at hl
        have hp := hsplit ▸ skipSpace_blank (newline_blank h d) _ ▸ skipSpace_cons (by decide) _
        have hk := scanString_quote k (byte 0x3A :: (pieces sp ++ (pieces (encodeAt indent d v) ++
          (pieces (encodeAt.members indent d false ms) ++ close))))
        have hc := skipSpace_cons (by decide : isSpace (byte 0x3A) = false)
          (pieces sp ++ (pieces (encodeAt indent d v) ++
            (pieces (encodeAt.members indent d false ms) ++ close)))
        have hv : Delimited (pieces (encodeAt.members indent d false ms) ++ close) →
            parseValue g (pieces sp ++ (pieces (encodeAt indent d v) ++
              (pieces (encodeAt.members indent d false ms) ++ close))) =
              some (v.coerced, pieces (encodeAt.members indent d false ms) ++ close) := fun ht => by
          rw [parseValue_blank hblank]
          exact parseValue_encodeAt h d v hms.1 g _ (by omega) ht
        by_cases hne : ms = []
        · subst hne
          exact parseMembers_last hp hk hc (hv hdelim) hclose
        · have hT : pieces (encodeAt.members indent d false ms) ++ close =
              byte 0x2C :: (pieces (encodeAt.members indent d true ms) ++ close) := by
            rw [members_false_of_ne hne, pieces_ascii_cons (by decide)]; rfl
          have hTl := congrArg List.length hT
          simp only [List.length_append, List.length_cons] at hTl
          rw [parseMembers_comma hp hk hc (hv (hT ▸ delimited_comma _))
              (by rw [hT]; exact skipSpace_cons (by decide) _),
            parseMembers_members d ms hne hms.2 g close rest (by omega) hclose hdelim]
          rfl

/-- `json.Unmarshal` reads back what the writer wrote, with every string
coerced to valid UTF-8. -/
theorem decode_encodeAt (h : Layout indent) {j : Json} (hj : j.wellFormed) :
    decode (encodeAt indent 0 j) = some j.coerced := by
  have hparse := parseValue_encodeAt h 0 j hj (2 * (pieces (encodeAt indent 0 j)).length + 2) []
    (by omega) (by simp [Delimited])
  rw [List.append_nil] at hparse
  simp [decode, hparse, skipSpace]

theorem decode_encode {j : Json} (hj : j.wellFormed) : decode (encode j) = some j.coerced :=
  decode_encodeAt layout_none hj

theorem decode_encodeIndent {j : Json} (hj : j.wellFormed) :
    decode (encodeIndent j) = some j.coerced :=
  decode_encodeAt layout_indent hj

end OmniVault.Json