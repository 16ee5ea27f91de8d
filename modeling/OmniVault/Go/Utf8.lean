import OmniVault.Go.Strings

/-!
UTF-8 as Go's `unicode/utf8` reads it. `utf8.DecodeRune` either reads one
well-formed rune of one to four bytes or reports `RuneError` with width one;
`pieces` cuts a byte string the way a loop over `DecodeRune` does, so that
every later decoder (the JSON string writer and reader) works piece by piece.
`encoding/json` writes every width-one error as U+FFFD: `coerce` is that
rewriting, and it is not injective on byte strings that are not valid UTF-8.
-/

namespace OmniVault.Utf8

/-- The rows of `utf8`'s `first` and `acceptRanges` tables for a byte that
starts a multi-byte rune: the rune's width and the range of its second byte. -/
def leadInfo (b : UInt8) : Option (Nat × UInt8 × UInt8) :=
  if b.toNat < 0xC2 then none
  else if b.toNat ≤ 0xDF then some (2, 0x80, 0xBF)
  else if b.toNat = 0xE0 then some (3, 0xA0, 0xBF)
  else if b.toNat = 0xED then some (3, 0x80, 0x9F)
  else if b.toNat ≤ 0xEF then some (3, 0x80, 0xBF)
  else if b.toNat = 0xF0 then some (4, 0x90, 0xBF)
  else if b.toNat ≤ 0xF3 then some (4, 0x80, 0xBF)
  else if b.toNat = 0xF4 then some (4, 0x80, 0x8F)
  else none

def inRange (lo hi b : UInt8) : Bool := lo.toNat ≤ b.toNat && b.toNat ≤ hi.toNat

/-- A continuation byte, `locb ≤ b ≤ hicb`. -/
def isCont (b : UInt8) : Bool := inRange 0x80 0xBF b

/-- The width `utf8.DecodeRune` reports for the head of `s` when it reads a
rune; `none` when it returns `RuneError` (width one, or zero on `[]`). -/
def runeWidth : Bytes → Option Nat
  | [] => none
  | b0 :: t =>
    if b0.toNat < 0x80 then some 1 else
    match leadInfo b0, t with
    | some (2, lo, hi), b1 :: _ => if inRange lo hi b1 then some 2 else none
    | some (3, lo, hi), b1 :: b2 :: _ => if inRange lo hi b1 && isCont b2 then some 3 else none
    | some (4, lo, hi), b1 :: b2 :: b3 :: _ =>
      if inRange lo hi b1 && isCont b2 && isCont b3 then some 4 else none
    | _, _ => none

/-- One step of a `DecodeRune` loop: a well-formed rune or one rejected byte. -/
inductive Piece where
  | rune (bytes : Bytes)
  | invalid (b : UInt8)
  deriving DecidableEq, Repr

/-- Cuts `s` into pieces after skipping the first `skip` bytes, which belong
to the rune just read. -/
def piecesFrom : Nat → Bytes → List Piece
  | _, [] => []
  | skip + 1, _ :: t => piecesFrom skip t
  | 0, b :: t =>
    match runeWidth (b :: t) with
    | some n => .rune ((b :: t).take n) :: piecesFrom (n - 1) t
    | none => .invalid b :: piecesFrom 0 t

/-- `s` as the sequence of results of `utf8.DecodeRune` from its start. -/
def pieces (s : Bytes) : List Piece := piecesFrom 0 s

/-- U+FFFD, `utf8.RuneError`, as bytes. -/
def replacementChar : Bytes := [0xEF, 0xBF, 0xBD]

namespace Piece

def bytes : Piece → Bytes
  | rune r => r
  | invalid b => [b]

/-- The bytes `encoding/json` keeps for a piece. -/
def coerced : Piece → Bytes
  | rune r => r
  | invalid _ => replacementChar

def isRune : Piece → Bool
  | rune _ => true
  | invalid _ => false

/-- What `pieces` promises about each piece: a rune piece is one whole rune. -/
def WellFormed : Piece → Prop
  | rune r => runeWidth r = some r.length
  | invalid _ => True

end Piece

/-- The rewriting `encoding/json` applies to every string it writes. -/
def coerce (s : Bytes) : Bytes := (pieces s).flatMap Piece.coerced

/-- `utf8.Valid`. -/
def valid (s : Bytes) : Bool := (pieces s).all Piece.isRune

theorem runeWidth_take_append {s : Bytes} {n : Nat} (h : runeWidth s = some n)
    (rest : Bytes) : runeWidth (s.take n ++ rest) = some n := by
  match s with
  | [] => simp [runeWidth] at h
  | b0 :: t =>
    by_cases hb : b0.toNat < 0x80
    · simp only [runeWidth, hb, if_true, Option.some.injEq] at h
      subst h; simp [runeWidth, hb]
    · simp only [runeWidth, hb, if_false] at h
      split at h
      all_goals (try simp only [Option.ite_none_right_eq_some, Option.some.injEq] at h)
      all_goals first
        | (simp at h; done)
        | (obtain ⟨_, rfl⟩ := h; simp_all [runeWidth])

theorem runeWidth_bounds {s : Bytes} {n : Nat} (h : runeWidth s = some n) :
    1 ≤ n ∧ n ≤ s.length := by
  match s with
  | [] => simp [runeWidth] at h
  | b0 :: t =>
    by_cases hb : b0.toNat < 0x80
    · simp only [runeWidth, hb, if_true, Option.some.injEq] at h
      subst h; simp
    · simp only [runeWidth, hb, if_false] at h
      split at h
      all_goals (try simp only [Option.ite_none_right_eq_some, Option.some.injEq] at h)
      all_goals first
        | (simp at h; done)
        | (obtain ⟨_, rfl⟩ := h; simp)

/-- The bytes of a rune just read form one rune on their own. -/
theorem runeWidth_take {s : Bytes} {n : Nat} (h : runeWidth s = some n) :
    runeWidth (s.take n) = some (s.take n).length := by
  have hlen : (s.take n).length = n := by simp [(runeWidth_bounds h).2]
  simpa [hlen] using runeWidth_take_append h []

theorem piecesFrom_eq_pieces_drop (skip : Nat) (s : Bytes) :
    piecesFrom skip s = pieces (s.drop skip) := by
  induction s generalizing skip with
  | nil => cases skip <;> rfl
  | cons b t ih =>
      cases skip with
      | zero => rfl
      | succ skip => simp [piecesFrom, ih]

@[simp] theorem pieces_nil : pieces [] = [] := rfl

theorem pieces_cons_of_rune {b : UInt8} {t : Bytes} {n : Nat}
    (h : runeWidth (b :: t) = some n) :
    pieces (b :: t) = .rune ((b :: t).take n) :: pieces ((b :: t).drop n) := by
  obtain ⟨hpos, -⟩ := runeWidth_bounds h
  obtain ⟨m, rfl⟩ : ∃ m, n = m + 1 := ⟨n - 1, by omega⟩
  have hstep : piecesFrom 0 (b :: t) = .rune ((b :: t).take (m + 1)) :: piecesFrom m t := by
    simp [piecesFrom, h]
  rw [pieces, hstep, piecesFrom_eq_pieces_drop]
  rfl

/-- A whole rune in front of any bytes is read as that rune. -/
theorem pieces_rune_append {r : Bytes} (hr : runeWidth r = some r.length) (rest : Bytes) :
    pieces (r ++ rest) = .rune r :: pieces rest := by
  match r, hr with
  | b :: t, hr =>
    have happ := runeWidth_take_append hr rest
    rw [List.take_length] at happ
    rw [List.cons_append] at happ ⊢
    rw [pieces_cons_of_rune happ]
    simp

theorem wellFormed_of_mem_piecesFrom {skip : Nat} {s : Bytes} {p : Piece}
    (hp : p ∈ piecesFrom skip s) : p.WellFormed := by
  induction s generalizing skip with
  | nil => cases skip <;> simp [piecesFrom] at hp
  | cons b t ih =>
      cases skip with
      | succ skip => exact ih hp
      | zero =>
          simp only [piecesFrom] at hp
          split at hp
          · rcases List.mem_cons.mp hp with rfl | hp
            · exact runeWidth_take ‹_›
            · exact ih hp
          · rcases List.mem_cons.mp hp with rfl | hp
            · trivial
            · exact ih hp

theorem wellFormed_of_mem_pieces {s : Bytes} {p : Piece} (hp : p ∈ pieces s) : p.WellFormed :=
  wellFormed_of_mem_piecesFrom hp

theorem flatMap_bytes_piecesFrom (skip : Nat) (s : Bytes) :
    (piecesFrom skip s).flatMap Piece.bytes = s.drop skip := by
  induction s generalizing skip with
  | nil => cases skip <;> rfl
  | cons b t ih =>
      cases skip with
      | succ skip => simp [piecesFrom, ih]
      | zero =>
          simp only [piecesFrom]
          split
          · rename_i n hn
            obtain ⟨hpos, -⟩ := runeWidth_bounds hn
            obtain ⟨m, rfl⟩ : ∃ m, n = m + 1 := ⟨n - 1, by omega⟩
            simp [Piece.bytes, ih]
          · simp [Piece.bytes, ih]

/-- Reading a string piece by piece loses nothing. -/
@[simp] theorem flatMap_bytes_pieces (s : Bytes) : (pieces s).flatMap Piece.bytes = s := by
  simpa using flatMap_bytes_piecesFrom 0 s

/-- Whole runes followed by anything are read as those runes. -/
theorem pieces_runes_append {ps : List Piece} (hps : ∀ p ∈ ps, p.isRune ∧ p.WellFormed)
    (rest : Bytes) : pieces (ps.flatMap Piece.bytes ++ rest) = ps ++ pieces rest := by
  induction ps with
  | nil => rfl
  | cons p ps ih =>
      obtain ⟨hrune, hwf⟩ := hps p (List.mem_cons_self p ps)
      cases p with
      | invalid b => simp [Piece.isRune] at hrune
      | rune r =>
          rw [List.flatMap_cons, List.append_assoc, Piece.bytes, pieces_rune_append hwf,
            ih (fun q hq => hps q (List.mem_cons_of_mem _ hq))]
          rfl

/-- A valid prefix is read independently of what follows it. -/
theorem pieces_append_of_valid {a : Bytes} (ha : valid a) (b : Bytes) :
    pieces (a ++ b) = pieces a ++ pieces b := by
  have hps : ∀ p ∈ pieces a, p.isRune ∧ p.WellFormed := fun p hp =>
    ⟨List.all_eq_true.mp ha p hp, wellFormed_of_mem_pieces hp⟩
  simpa using pieces_runes_append hps b

theorem valid_append {a b : Bytes} (ha : valid a) (hb : valid b) : valid (a ++ b) := by
  have hb' : (pieces b).all Piece.isRune := hb
  simp only [valid, pieces_append_of_valid ha, List.all_append, Bool.and_eq_true]
  exact ⟨ha, hb'⟩

/-- A single well-formed rune is valid on its own. -/
theorem valid_rune {r : Bytes} (hr : runeWidth r = some r.length) : valid r := by
  have := pieces_rune_append hr []
  simp only [List.append_nil] at this
  simp [valid, this, Piece.isRune]

theorem runeWidth_singleton {b : UInt8} {n : Nat} (h : runeWidth [b] = some n) :
    b.toNat < 0x80 := by
  by_contra hb
  simp only [runeWidth, hb, if_false] at h
  split at h <;> simp_all

theorem coerce_of_valid {s : Bytes} (hs : valid s) : coerce s = s := by
  have hsame : ∀ p ∈ pieces s, p.coerced = p.bytes := by
    intro p hp
    cases p with
    | rune r => rfl
    | invalid b => simpa [Piece.isRune] using List.all_eq_true.mp hs _ hp
  rw [coerce, List.flatMap_congr hsame, flatMap_bytes_pieces]

/-- ASCII strings are valid and read byte by byte. -/
theorem pieces_ascii {s : Bytes} (hs : ∀ b ∈ s, b.toNat < 0x80) :
    pieces s = s.map (fun b => .rune [b]) := by
  induction s with
  | nil => rfl
  | cons b t ih =>
      have hb : runeWidth (b :: t) = some 1 := by
        simp [runeWidth, hs b (List.mem_cons_self b t)]
      rw [pieces_cons_of_rune hb]
      simp [ih (fun c hc => hs c (List.mem_cons_of_mem b hc))]

theorem valid_ascii {s : Bytes} (hs : ∀ b ∈ s, b.toNat < 0x80) : valid s := by
  simp [valid, pieces_ascii hs, Piece.isRune]

/-! ## An ASCII byte stands alone -/

/-- Every row of the lead-byte table is a width of two to four bytes whose
second byte is a continuation byte. -/
theorem leadInfo_spec {b lo hi : UInt8} {k : Nat} (h : leadInfo b = some (k, lo, hi)) :
    (k = 2 ∨ k = 3 ∨ k = 4) ∧ 0x80 ≤ lo.toNat := by
  unfold leadInfo at h
  split_ifs at h <;> (simp only [Option.some.injEq, Prod.mk.injEq] at h; obtain ⟨rfl, rfl, rfl⟩ := h; decide)

/-- An ASCII byte never continues a rune, so the width read at the head of
`b0 :: t` is the same whatever follows an ASCII byte after it. -/
theorem runeWidth_append_ascii {b : UInt8} (hb : b.toNat < 0x80) (b0 : UInt8) (t y : Bytes) :
    runeWidth (b0 :: t ++ b :: y) = runeWidth (b0 :: t) := by
  by_cases h0 : b0.toNat < 0x80
  · simp [runeWidth, h0]
  have hr : ∀ lo hi : UInt8, 0x80 ≤ lo.toNat → inRange lo hi b = false := fun lo hi h => by
    simp only [inRange, Bool.and_eq_false_iff, decide_eq_false_iff_not]; omega
  have hc : isCont b = false := hr _ _ (by decide)
  simp only [runeWidth, h0, if_false, List.cons_append]
  rcases hl : leadInfo b0 with _ | ⟨k, lo, hi⟩
  · rfl
  obtain ⟨hk, hlo⟩ := leadInfo_spec hl
  rcases hk with rfl | rfl | rfl <;> rcases t with _ | ⟨b1, _ | ⟨b2, _ | ⟨b3, t⟩⟩⟩ <;>
    rcases y with _ | ⟨c1, _ | ⟨c2, y⟩⟩ <;> simp [hr lo hi hlo, hc]

theorem piecesFrom_append_ascii {b : UInt8} (hb : b.toNat < 0x80) (y : Bytes) :
    ∀ (x : Bytes) (k : Nat), k ≤ x.length →
      piecesFrom k (x ++ b :: y) = piecesFrom k x ++ .rune [b] :: pieces y
  | [], 0, _ => by simp [piecesFrom, runeWidth, hb, pieces]
  | a :: x, k + 1, hk => by
      simp [piecesFrom, piecesFrom_append_ascii hb y x k (by simpa using hk)]
  | a :: x, 0, _ => by
      have hw := runeWidth_append_ascii hb a x y
      rw [List.cons_append] at hw ⊢
      simp only [piecesFrom, hw]
      split
      · rename_i n hn
        have hlen := (runeWidth_bounds hn).2
        rw [← List.cons_append, List.take_append_of_le_length hlen,
          piecesFrom_append_ascii hb y x (n - 1) (by simp at hlen; omega)]
        rfl
      · rw [piecesFrom_append_ascii hb y x 0 (Nat.zero_le _)]
        rfl

/-- An ASCII byte is read as a rune of its own, and cuts the reading of a
byte string in two. -/
theorem pieces_append_ascii {b : UInt8} (hb : b.toNat < 0x80) (x y : Bytes) :
    pieces (x ++ b :: y) = pieces x ++ .rune [b] :: pieces y :=
  piecesFrom_append_ascii hb y x 0 (Nat.zero_le _)

end OmniVault.Utf8
