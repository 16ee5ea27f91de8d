import OmniVault.Encoding.JsonRoundTrip

/-!
A document cut short does not read. `os.WriteFile` truncates its file before
it writes, so a write that stops early leaves a prefix of the new document;
`decode` rejects every proper prefix of a document that reads as an object.

The proof is about the reader alone. A call of the reader only consumes
input (`rest <:+ ps`); a call that returned with input left over returns the
same with more fuel and more input after it (`Stable`); and an object ends at
its closing brace. If a proper prefix of a document read as an object, the
whole document would read as that object followed by the rest of it, which
ends with a brace and so is not blank.
-/

namespace OmniVault.Json

open Utf8

/-! ## Scanners -/

theorem skipSpace_suffix (ps : List Piece) : skipSpace ps <:+ ps := List.dropWhile_suffix _

/-- Blanks skipped before something are skipped the same with more input after it. -/
theorem skipSpace_append {ps r : List Piece} {p : Piece} (h : skipSpace ps = p :: r) (m : List Piece) :
    skipSpace (ps ++ m) = p :: (r ++ m) := by
  simp only [skipSpace] at h ⊢
  simp [List.dropWhile_append, h]

theorem keyword_suffix {w : Bytes} {ps rest : List Piece} (h : keyword w ps = some rest) : rest <:+ ps := by
  simp only [keyword, Option.ite_none_right_eq_some, Option.some.injEq] at h
  exact h.2 ▸ List.drop_suffix _ _

theorem keyword_append {w : Bytes} {ps rest : List Piece} (h : keyword w ps = some rest) (m : List Piece) :
    keyword w (ps ++ m) = some (rest ++ m) := by
  simp only [keyword, Option.ite_none_right_eq_some, Option.some.injEq] at h ⊢
  obtain ⟨hpre, rfl⟩ := h
  have hp := List.isPrefixOf_iff_prefix.mp hpre
  refine ⟨List.isPrefixOf_iff_prefix.mpr (hp.trans (List.prefix_append ps m)), ?_⟩
  exact List.drop_append_of_le_length (by simpa using hp.length_le)

/-- A keyword is read only where its first letter stands. -/
theorem keyword_head {c : UInt8} {w : Bytes} {p : Piece} {r rest : List Piece}
    (h : keyword (c :: w) (p :: r) = some rest) : p = byte c := by
  simp only [keyword, Option.ite_none_right_eq_some, List.map_cons, List.isPrefixOf_cons₂,
    Bool.and_eq_true, beq_iff_eq] at h
  exact h.1.1.symm

theorem keyword_cons_ne {c : UInt8} {w : Bytes} {p : Piece} (h : p ≠ byte c) (r : List Piece) :
    keyword (c :: w) (p :: r) = none := by
  simp [keyword, List.isPrefixOf_cons₂, Ne.symm h]

/-! ### String literals -/

/-- A string body too short to hold the `\uXXXX` that would follow it in a
longer input does not close. -/
theorem scanString_short_escape {rest m t : List Piece} {g1 g2 g3 g4 : Piece} (hlen : rest.length < 6)
    (h : rest ++ m = byte 0x5C :: byte 0x75 :: g1 :: g2 :: g3 :: g4 :: t) : scanStringFrom 0 rest = none := by
  rcases rest with _ | ⟨a1, _ | ⟨a2, _ | ⟨a3, _ | ⟨a4, _ | ⟨a5, _ | ⟨a6, _⟩⟩⟩⟩⟩⟩
  · rfl
  all_goals simp only [List.cons_append, List.cons.injEq] at h
  · obtain ⟨rfl, -⟩ := h; rfl
  · obtain ⟨rfl, rfl, -⟩ := h; rfl
  · obtain ⟨rfl, rfl, -⟩ := h; rfl
  · obtain ⟨rfl, rfl, -⟩ := h; rfl
  · obtain ⟨rfl, rfl, -⟩ := h; rfl
  · simp only [List.length_cons] at hlen; omega

/-- The surrogate case of `\u` looks ahead for a second escape; more input
after a body that closes never changes what it finds. -/
theorem unicodeStep_append {r : Nat} {rest : List Piece} {out : Bytes} {w : Nat}
    (h : unicodeStep r rest = .chunk out w) (hs : scanStringFrom (w - 6) rest ≠ none) (m : List Piece) :
    unicodeStep r (rest ++ m) = .chunk out w := by
  by_cases hsur : 0xD800 ≤ r ∧ r < 0xE000
  swap
  · simpa [unicodeStep, hsur] using h
  by_cases hlen : 6 ≤ rest.length
  · obtain ⟨p1, p2, g1, g2, g3, g4, t, rfl⟩ :
        ∃ p1 p2 g1 g2 g3 g4 t, rest = p1 :: p2 :: g1 :: g2 :: g3 :: g4 :: t := by
      rcases rest with _ | ⟨p1, _ | ⟨p2, _ | ⟨g1, _ | ⟨g2, _ | ⟨g3, _ | ⟨g4, t⟩⟩⟩⟩⟩⟩ <;>
        simp only [List.length_cons, List.length_nil] at hlen <;> first | omega | exact ⟨_, _, _, _, _, _, _, rfl⟩
    simpa [unicodeStep, hsur] using h
  -- too short to look ahead: a lone surrogate, read as U+FFFD
  have hshort : out = replacementChar ∧ w = 6 := by
    rcases rest with _ | ⟨p1, _ | ⟨p2, _ | ⟨g1, _ | ⟨g2, _ | ⟨g3, _ | ⟨g4, t⟩⟩⟩⟩⟩⟩ <;>
      simp only [List.length_cons, List.length_nil] at hlen <;>
      first | omega | simpa [unicodeStep, hsur, eq_comm] using h
  obtain ⟨rfl, rfl⟩ := hshort
  simp only [unicodeStep, hsur, and_self, if_true]
  rcases hrm : rest ++ m with _ | ⟨p1, _ | ⟨p2, _ | ⟨g1, _ | ⟨g2, _ | ⟨g3, _ | ⟨g4, t⟩⟩⟩⟩⟩⟩
  all_goals try rfl
  rcases hx : hex4 g1 g2 g3 g4 with _ | r2
  · simp [hx]
  by_cases hc : p1 = byte 0x5C ∧ p2 = byte 0x75 ∧ r < 0xDC00 ∧ 0xDC00 ≤ r2 ∧ r2 < 0xE000
  · obtain ⟨rfl, rfl, -⟩ := hc
    exact absurd (scanString_short_escape (by omega) hrm) hs
  · simp [hx, hc]

/-- What one step reads at the head of a string body that closes does not
depend on the input after it. -/
theorem stringStep_append {p : Piece} {ps : List Piece} {out : Bytes} {w : Nat}
    (h : stringStep (p :: ps) = .chunk out w) (hs : scanStringFrom (w - 1) ps ≠ none) (m : List Piece) :
    stringStep (p :: (ps ++ m)) = .chunk out w := by
  by_cases h1 : p = byte 0x22
  · simp [stringStep, h1] at h
  by_cases h2 : p = byte 0x5C
  swap
  · simpa [stringStep, h1, h2] using h
  subst h2
  simp only [stringStep, if_neg h1, if_true] at h ⊢
  rcases ps with _ | ⟨q, ps⟩
  · simp at h
  rcases q with bs | b
  swap
  · simp at h
  rcases bs with _ | ⟨c, _ | ⟨d, bs⟩⟩
  · simp at h
  swap
  · simp at h
  simp only [List.cons_append] at h ⊢
  rcases hsc : simpleEscape c with _ | e
  swap
  · simpa [hsc] using h
  by_cases hu : c = 0x75
  swap
  · simp [hsc, hu] at h
  subst hu
  simp only [hsc, if_true] at h ⊢
  rcases ps with _ | ⟨x1, _ | ⟨x2, _ | ⟨x3, _ | ⟨x4, rest⟩⟩⟩⟩
  iterate 4 · simp at h
  rcases hx : hex4 x1 x2 x3 x4 with _ | r
  · simp [hx] at h
  simp only [hx] at h ⊢
  have hw : 6 ≤ w := by
    unfold unicodeStep at h
    split_ifs at h <;> (repeat' split at h) <;> (simp only [StringStep.chunk.injEq] at h; omega)
  have hs' : scanStringFrom (w - 6) rest ≠ none := by
    have : w - 1 = (w - 6) + 5 := by omega
    simpa [this, scanStringFrom] using hs
  simpa [hx] using unicodeStep_append h hs' m

theorem unicodeStep_ne_close (r : Nat) (rest : List Piece) : unicodeStep r rest ≠ .close := by
  unfold unicodeStep; split_ifs <;> (repeat' split) <;> simp

/-- Only a quote closes a string literal. -/
theorem stringStep_close {p : Piece} {ps : List Piece} (h : stringStep (p :: ps) = .close) : p = byte 0x22 := by
  by_contra hp
  simp only [stringStep, hp, if_false] at h
  split_ifs at h <;> (repeat' split at h) <;> simp_all [unicodeStep_ne_close]

theorem scanStringFrom_suffix {skip : Nat} {ps : List Piece} {out : Bytes} {rest : List Piece}
    (h : scanStringFrom skip ps = some (out, rest)) : rest <:+ ps := by
  induction ps generalizing skip out with
  | nil => cases skip <;> simp [scanStringFrom] at h
  | cons p ps ih =>
      cases skip with
      | succ skip => exact (ih (show scanStringFrom skip ps = _ from h)).trans (List.suffix_cons p ps)
      | zero =>
          simp only [scanStringFrom] at h
          split at h
          · rw [← (Prod.mk.inj (Option.some.inj h)).2]; exact List.suffix_cons p ps
          · simp only [Option.map_eq_map, Option.map_eq_some'] at h
            obtain ⟨⟨o, r⟩, hr, heq⟩ := h
            cases heq
            exact (ih hr).trans (List.suffix_cons p ps)
          · cases h

/-- A string literal that closes is read the same with more input after it. -/
theorem scanStringFrom_append {skip : Nat} {ps : List Piece} {out : Bytes} {rest : List Piece}
    (h : scanStringFrom skip ps = some (out, rest)) (m : List Piece) :
    scanStringFrom skip (ps ++ m) = some (out, rest ++ m) := by
  induction ps generalizing skip out with
  | nil => cases skip <;> simp [scanStringFrom] at h
  | cons p ps ih =>
      cases skip with
      | succ skip => exact ih (show scanStringFrom skip ps = _ from h)
      | zero =>
          simp only [scanStringFrom] at h
          split at h
          · rename_i hc
            cases h
            simp [scanStringFrom, stringStep, stringStep_close hc]
          · rename_i o w hc
            simp only [Option.map_eq_map, Option.map_eq_some'] at h
            obtain ⟨⟨o', r⟩, hr, heq⟩ := h
            cases heq
            simp [scanStringFrom, stringStep_append hc (by simp [hr]) m, ih hr]
          · cases h

/-! ### Number literals -/

theorem digits_suffix (ps : List Piece) : (digits ps).2 <:+ ps := List.dropWhile_suffix _

theorem digits_append_of_ne {ps : List Piece} (h : (digits ps).2 ≠ []) (m : List Piece) :
    digits (ps ++ m) = ((digits ps).1, (digits ps).2 ++ m) := by
  have hlen : (ps.takeWhile isDigit).length ≠ ps.length := by
    intro hl
    apply h
    have := congrArg List.length (List.takeWhile_append_dropWhile isDigit ps)
    simp only [List.length_append] at this
    exact List.eq_nil_of_length_eq_zero (by simp only [digits]; omega)
  have hne : (ps.dropWhile isDigit).isEmpty = false := by simpa [digits] using h
  simp [digits, List.takeWhile_append, List.dropWhile_append, hlen, hne]

theorem scanSign_suffix (ps : List Piece) : (scanSign ps).2 <:+ ps := by
  rcases ps with _ | ⟨p, r⟩
  · exact List.suffix_refl _
  · simp only [scanSign]; split_ifs
    · exact List.suffix_cons p r
    · exact List.suffix_refl _

theorem scanWhole_suffix {ps : List Piece} {o : Bytes} {r : List Piece} (h : scanWhole ps = some (o, r)) :
    r <:+ ps := by
  rcases ps with _ | ⟨p, t⟩
  · cases h
  simp only [scanWhole] at h
  split_ifs at h <;> simp only [Option.some.injEq, Prod.mk.injEq, reduceCtorEq] at h <;> obtain ⟨-, rfl⟩ := h
  · exact List.suffix_cons p t
  · exact (digits_suffix t).trans (List.suffix_cons p t)

theorem scanFraction_suffix {ps : List Piece} {o : Bytes} {r : List Piece} (h : scanFraction ps = some (o, r)) :
    r <:+ ps := by
  rcases ps with _ | ⟨p, t⟩
  · cases h; exact List.suffix_refl _
  simp only [scanFraction] at h
  split_ifs at h <;> simp only [Option.some.injEq, Prod.mk.injEq, reduceCtorEq] at h <;> obtain ⟨-, rfl⟩ := h
  · exact (digits_suffix t).trans (List.suffix_cons p t)
  · exact List.suffix_refl _

theorem scanExponent_suffix {ps : List Piece} {o : Bytes} {r : List Piece}
    (h : scanExponent ps = some (o, r)) : r <:+ ps := by
  rcases ps with _ | ⟨p, t⟩
  · cases h; exact List.suffix_refl _
  simp only [scanExponent] at h
  split_ifs at h <;> simp only [Option.some.injEq, Prod.mk.injEq, reduceCtorEq] at h <;> obtain ⟨-, rfl⟩ := h
  · refine (digits_suffix _).trans (List.IsSuffix.trans ?_ (List.suffix_cons p t))
    rcases t with _ | ⟨q, t'⟩
    · exact List.suffix_refl _
    · simp only; split_ifs
      · exact List.suffix_cons q t'
      · exact List.suffix_refl _
  · exact List.suffix_refl _

theorem scanNumber_suffix {ps : List Piece} {o : Bytes} {r : List Piece} (h : scanNumber ps = some (o, r)) :
    r <:+ ps := by
  simp only [scanNumber, Option.bind_eq_bind, Option.bind_eq_some, Option.some.injEq] at h
  obtain ⟨⟨wo, wr⟩, hw, ⟨fo, fr⟩, hf, ⟨eo, er⟩, he, heq⟩ := h
  cases heq
  exact (scanExponent_suffix he).trans ((scanFraction_suffix hf).trans
    ((scanWhole_suffix hw).trans (scanSign_suffix ps)))

/-- A number starts with a minus sign or a digit. -/
theorem scanNumber_head {p : Piece} {r : List Piece} {o : Bytes} {rest : List Piece}
    (h : scanNumber (p :: r) = some (o, rest)) : p = byte 0x2D ∨ isDigit p = true := by
  by_cases hp : p = byte 0x2D
  · exact .inl hp
  simp only [scanNumber, scanSign, hp, if_false, scanWhole, Option.bind_eq_bind] at h
  split_ifs at h with h0 hd
  · exact .inr (h0 ▸ rfl)
  · exact .inr hd
  · simp at h

theorem scanSign_append {ps : List Piece} (h : ps ≠ []) (m : List Piece) :
    scanSign (ps ++ m) = ((scanSign ps).1, (scanSign ps).2 ++ m) := by
  rcases ps with _ | ⟨p, r⟩
  · exact absurd rfl h
  · simp only [scanSign, List.cons_append]; split_ifs <;> rfl

theorem scanWhole_append {ps : List Piece} {o : Bytes} {r : List Piece} (h : scanWhole ps = some (o, r))
    (hr : r ≠ []) (m : List Piece) : scanWhole (ps ++ m) = some (o, r ++ m) := by
  rcases ps with _ | ⟨p, t⟩
  · cases h
  simp only [scanWhole, List.cons_append] at h ⊢
  split_ifs at h ⊢ <;> simp only [Option.some.injEq, Prod.mk.injEq, reduceCtorEq] at h
  · obtain ⟨rfl, rfl⟩ := h; rfl
  · obtain ⟨rfl, rfl⟩ := h
    simp [digits_append_of_ne hr]

/-- At least one digit, after `pre`, that stop before the end of the input. -/
theorem digitRun_append (pre : Bytes) {x : List Piece} {o : Bytes} {r : List Piece}
    (h : (if (digits x).1 = [] then none else some (pre ++ (digits x).1, (digits x).2)) = some (o, r))
    (hr : r ≠ []) (m : List Piece) :
    (if (digits (x ++ m)).1 = [] then none else some (pre ++ (digits (x ++ m)).1, (digits (x ++ m)).2)) =
      some (o, r ++ m) := by
  split_ifs at h with hd
  simp only [Option.some.injEq, Prod.mk.injEq] at h
  obtain ⟨rfl, rfl⟩ := h
  simp [digits_append_of_ne hr, hd]

theorem scanFraction_append {ps : List Piece} {o : Bytes} {r : List Piece} (h : scanFraction ps = some (o, r))
    (hr : r ≠ []) (m : List Piece) : scanFraction (ps ++ m) = some (o, r ++ m) := by
  rcases ps with _ | ⟨p, t⟩
  · cases h; exact absurd rfl hr
  simp only [scanFraction, List.cons_append] at h ⊢
  by_cases hp : p = byte 0x2E
  · simp only [hp, if_true] at h ⊢
    exact digitRun_append [0x2E] h hr m
  · simp only [hp, if_false, Option.some.injEq, Prod.mk.injEq] at h ⊢
    obtain ⟨rfl, rfl⟩ := h; exact ⟨rfl, rfl⟩

theorem scanExponent_append {ps : List Piece} {o : Bytes} {r : List Piece} (h : scanExponent ps = some (o, r))
    (hr : r ≠ []) (m : List Piece) : scanExponent (ps ++ m) = some (o, r ++ m) := by
  rcases ps with _ | ⟨p, t⟩
  · cases h; exact absurd rfl hr
  simp only [scanExponent, List.cons_append] at h ⊢
  by_cases he : p = byte 0x65 ∨ p = byte 0x45
  swap
  · simp only [he, if_false, Option.some.injEq, Prod.mk.injEq] at h ⊢
    obtain ⟨rfl, rfl⟩ := h; exact ⟨rfl, rfl⟩
  simp only [he, if_true] at h ⊢
  rcases t with _ | ⟨q, t'⟩
  · simp [digits, asciiBytes] at h
  simp only [List.cons_append] at h ⊢
  by_cases hq : q = byte 0x2B ∨ q = byte 0x2D
  · simp only [hq, if_true] at h ⊢
    exact digitRun_append _ h hr m
  · simp only [hq, if_false] at h ⊢
    exact digitRun_append _ h hr m

/-- A number followed by more input reads the same with anything after that input. -/
theorem scanNumber_append {ps : List Piece} {o : Bytes} {r : List Piece} (h : scanNumber ps = some (o, r))
    (hr : r ≠ []) (m : List Piece) : scanNumber (ps ++ m) = some (o, r ++ m) := by
  simp only [scanNumber, Option.bind_eq_bind, Option.bind_eq_some, Option.some.injEq] at h
  obtain ⟨⟨wo, wr⟩, hw, ⟨fo, fr⟩, hf, ⟨eo, er⟩, he, heq⟩ := h
  cases heq
  have hfr : fr ≠ [] := by rintro rfl; cases he; exact hr rfl
  have hwr : wr ≠ [] := by rintro rfl; cases hf; exact hfr rfl
  have hps : ps ≠ [] := by rintro rfl; cases hw
  simp [scanNumber, scanSign_append hps, scanWhole_append hw hwr, scanFraction_append hf hfr,
    scanExponent_append he hr]

/-! ## Values -/

/-- The reader's call at fuel `fuel` on `ps` returned `(x, rest)`, and it reads
the same with more fuel and anything after `ps`. -/
def Extends {α : Type} (read : Nat → List Piece → Option (α × List Piece)) (fuel : Nat) (ps : List Piece)
    (x : α) (rest : List Piece) : Prop :=
  ∀ fuel', fuel ≤ fuel' → ∀ m, read fuel' (ps ++ m) = some (x, rest ++ m)

/-- Every call of the reader at fuel `fuel` that returned consumed only a
prefix of its input, and extends to longer input when it returned something
other than a number with nothing left. -/
def StableAt (fuel : Nat) : Prop :=
  (∀ {ps j rest}, parseValue fuel ps = some (j, rest) →
    rest <:+ ps ∧ ((rest ≠ [] ∨ ∀ lit, j ≠ .number lit) → Extends parseValue fuel ps j rest)) ∧
  (∀ {ps xs rest}, parseElems fuel ps = some (xs, rest) → rest <:+ ps ∧ Extends parseElems fuel ps xs rest) ∧
  (∀ {ps ms rest}, parseMembers fuel ps = some (ms, rest) → rest <:+ ps ∧ Extends parseMembers fuel ps ms rest)

theorem parseElems_inv {f : Nat} {ps : List Piece} {xs : List Json} {rest : List Piece}
    (h : parseElems (f + 1) ps = some (xs, rest)) :
    ∃ x r c r', parseValue f ps = some (x, r) ∧ skipSpace r = c :: r' ∧
      ((c = byte 0x2C ∧ ∃ xs', parseElems f r' = some (xs', rest) ∧ xs = x :: xs') ∨
        (c = byte 0x5D ∧ rest = r' ∧ xs = [x])) := by
  simp only [parseElems] at h
  rcases hv : parseValue f ps with _ | ⟨x, r⟩
  · simp [hv] at h
  rcases hs : skipSpace r with _ | ⟨c, r'⟩
  · simp [hv, hs] at h
  simp only [hv, hs, Option.bind_eq_bind, Option.some_bind] at h
  refine ⟨x, r, c, r', rfl, hs, ?_⟩
  split_ifs at h with h1 h2
  · simp only [Option.map_eq_map, Option.map_eq_some'] at h
    obtain ⟨⟨xs', r''⟩, hr, heq⟩ := h
    cases heq
    exact .inl ⟨h1, xs', hr, rfl⟩
  · obtain ⟨rfl, rfl⟩ := Prod.mk.inj (Option.some.inj h)
    exact .inr ⟨h2, rfl, rfl⟩

theorem parseMembers_inv {f : Nat} {ps : List Piece} {ms : List (Bytes × Json)} {rest : List Piece}
    (h : parseMembers (f + 1) ps = some (ms, rest)) :
    ∃ ps' k r1 r2 v r3 c r', skipSpace ps = byte 0x22 :: ps' ∧ scanString ps' = some (k, r1) ∧
      skipSpace r1 = byte 0x3A :: r2 ∧ parseValue f r2 = some (v, r3) ∧ skipSpace r3 = c :: r' ∧
      ((c = byte 0x2C ∧ ∃ ms', parseMembers f r' = some (ms', rest) ∧ ms = (k, v) :: ms') ∨
        (c = byte 0x7D ∧ rest = r' ∧ ms = [(k, v)])) := by
  simp only [parseMembers] at h
  rcases hs : skipSpace ps with _ | ⟨p, ps'⟩
  · simp [hs] at h
  simp only [hs] at h
  by_cases hp : p = byte 0x22
  swap
  · simp [hp] at h
  subst hp
  rcases hk : scanString ps' with _ | ⟨k, r1⟩
  · simp [hk] at h
  rcases hs1 : skipSpace r1 with _ | ⟨q, r2⟩
  · simp [hk, hs1] at h
  by_cases hq : q = byte 0x3A
  swap
  · simp [hk, hs1, hq] at h
  subst hq
  rcases hv : parseValue f r2 with _ | ⟨v, r3⟩
  · simp [hk, hs1, hv] at h
  rcases hs3 : skipSpace r3 with _ | ⟨c, r'⟩
  · simp [hk, hs1, hv, hs3] at h
  refine ⟨ps', k, r1, r2, v, r3, c, r', rfl, hk, hs1, hv, hs3, ?_⟩
  simp only [hk, hs1, hv, hs3, if_true, Option.bind_eq_bind, Option.some_bind] at h
  split_ifs at h with h1 h2
  · simp only [Option.map_eq_map, Option.map_eq_some'] at h
    obtain ⟨⟨ms', r''⟩, hr, heq⟩ := h
    cases heq
    exact .inl ⟨h1, ms', hr, rfl⟩
  · obtain ⟨rfl, rfl⟩ := Prod.mk.inj (Option.some.inj h)
    exact .inr ⟨h2, rfl, rfl⟩

/-- The keywords and numbers at the head of a value: the first letter decides
which reads, so more input after it cannot make another one read. -/
theorem parseValue_literal_stable {p : Piece} {r : List Piece} {j : Json} {rest : List Piece}
    (h1 : p ≠ byte 0x7B) (h2 : p ≠ byte 0x5B) (h3 : p ≠ byte 0x22)
    (h : (match keyword (Bytes.ofString "true") (p :: r) with
        | some rest' => some (Json.bool true, rest')
        | none => match keyword (Bytes.ofString "false") (p :: r) with
          | some rest' => some (.bool false, rest')
          | none => match keyword (Bytes.ofString "null") (p :: r) with
            | some rest' => some (.null, rest')
            | none => (fun r => (Json.number r.1, r.2)) <$> scanNumber (p :: r)) = some (j, rest)) :
    rest <:+ p :: r ∧ ((rest ≠ [] ∨ ∀ lit, j ≠ .number lit) → ∀ m,
      (match keyword (Bytes.ofString "true") (p :: (r ++ m)) with
        | some rest' => some (Json.bool true, rest')
        | none => match keyword (Bytes.ofString "false") (p :: (r ++ m)) with
          | some rest' => some (.bool false, rest')
          | none => match keyword (Bytes.ofString "null") (p :: (r ++ m)) with
            | some rest' => some (.null, rest')
            | none => (fun r => (Json.number r.1, r.2)) <$> scanNumber (p :: (r ++ m))) =
        some (j, rest ++ m)) := by
  simp only [ofString_true, ofString_false, ofString_null] at h ⊢
  rcases ht : keyword [0x74, 0x72, 0x75, 0x65] (p :: r) with _ | rt
  · rcases hf : keyword [0x66, 0x61, 0x6C, 0x73, 0x65] (p :: r) with _ | rf
    · rcases hn : keyword [0x6E, 0x75, 0x6C, 0x6C] (p :: r) with _ | rn
      · simp only [ht, hf, hn, Option.map_eq_map, Option.map_eq_some'] at h
        obtain ⟨⟨lit, r'⟩, hnum, heq⟩ := h
        cases heq
        refine ⟨scanNumber_suffix hnum, fun hc m => ?_⟩
        have hr' : r' ≠ [] := hc.resolve_right (fun hn' => hn' lit rfl)
        have hd : p ≠ byte 0x74 ∧ p ≠ byte 0x66 ∧ p ≠ byte 0x6E := by
          rcases scanNumber_head hnum with rfl | hd
          · decide
          · refine ⟨?_, ?_, ?_⟩ <;> rintro rfl <;> simp +decide at hd
        have := scanNumber_append hnum hr' m
        simp only [List.cons_append] at this
        simp [keyword_cons_ne hd.1, keyword_cons_ne hd.2.1, keyword_cons_ne hd.2.2, this]
      · simp only [ht, hf, hn, Option.some.injEq, Prod.mk.injEq] at h
        obtain ⟨rfl, rfl⟩ := h
        have hp := keyword_head hn
        have := keyword_append hn
        simp only [List.cons_append] at this
        refine ⟨keyword_suffix hn, fun _ m => ?_⟩
        subst hp
        simp +decide [keyword_cons_ne, this]
    · simp only [ht, hf, Option.some.injEq, Prod.mk.injEq] at h
      obtain ⟨rfl, rfl⟩ := h
      have hp := keyword_head hf
      have := keyword_append hf
      simp only [List.cons_append] at this
      refine ⟨keyword_suffix hf, fun _ m => ?_⟩
      subst hp
      simp +decide [keyword_cons_ne, this]
  · simp only [ht, Option.some.injEq, Prod.mk.injEq] at h
    obtain ⟨rfl, rfl⟩ := h
    have := keyword_append ht
    simp only [List.cons_append] at this
    exact ⟨keyword_suffix ht, fun _ m => by simp [this]⟩

section Step

variable {f : Nat} (ih : StableAt f)
include ih

theorem parseElems_stable {ps : List Piece} {xs : List Json} {rest : List Piece}
    (h : parseElems (f + 1) ps = some (xs, rest)) : rest <:+ ps ∧ Extends parseElems (f + 1) ps xs rest := by
  obtain ⟨x, r, c, r', hx, hs, hc⟩ := parseElems_inv h
  have hr : r ≠ [] := by rintro rfl; cases hs
  obtain ⟨hxs, hxe⟩ := ih.1 hx
  have hr' : r' <:+ r := (List.suffix_cons c r').trans (hs ▸ skipSpace_suffix r)
  rcases hc with ⟨rfl, xs', hrec, rfl⟩ | ⟨rfl, rfl, rfl⟩
  · obtain ⟨hrs, hre⟩ := ih.2.1 hrec
    refine ⟨hrs.trans (hr'.trans hxs), fun g hg m => ?_⟩
    obtain ⟨g, rfl⟩ : ∃ g', g = g' + 1 := ⟨g - 1, by omega⟩
    simp [parseElems, hxe (.inl hr) g (by omega) m, skipSpace_append hs, hre g (by omega) m]
  · refine ⟨hr'.trans hxs, fun g hg m => ?_⟩
    obtain ⟨g, rfl⟩ : ∃ g', g = g' + 1 := ⟨g - 1, by omega⟩
    simp +decide [parseElems, hxe (.inl hr) g (by omega) m, skipSpace_append hs]

theorem parseMembers_stable {ps : List Piece} {ms : List (Bytes × Json)} {rest : List Piece}
    (h : parseMembers (f + 1) ps = some (ms, rest)) : rest <:+ ps ∧ Extends parseMembers (f + 1) ps ms rest := by
  obtain ⟨ps', k, r1, r2, v, r3, c, r', hs, hk, hs1, hv, hs3, hc⟩ := parseMembers_inv h
  have hr3 : r3 ≠ [] := by rintro rfl; cases hs3
  obtain ⟨hvs, hve⟩ := ih.1 hv
  have hchain : r3 <:+ ps :=
    hvs.trans ((List.suffix_cons _ r2).trans (hs1 ▸ skipSpace_suffix r1) |>.trans
      ((scanStringFrom_suffix hk).trans ((List.suffix_cons _ ps').trans (hs ▸ skipSpace_suffix ps))))
  have hr' : r' <:+ ps := ((List.suffix_cons c r').trans (hs3 ▸ skipSpace_suffix r3)).trans hchain
  have hk' := scanStringFrom_append hk
  rcases hc with ⟨rfl, ms', hrec, rfl⟩ | ⟨rfl, rfl, rfl⟩
  · obtain ⟨hrs, hre⟩ := ih.2.2 hrec
    refine ⟨hrs.trans hr', fun g hg m => ?_⟩
    obtain ⟨g, rfl⟩ : ∃ g', g = g' + 1 := ⟨g - 1, by omega⟩
    simp [parseMembers, skipSpace_append hs, scanString, hk' m, skipSpace_append hs1,
      hve (.inl hr3) g (by omega) m, skipSpace_append hs3, hre g (by omega) m]
  · refine ⟨hr', fun g hg m => ?_⟩
    obtain ⟨g, rfl⟩ : ∃ g', g = g' + 1 := ⟨g - 1, by omega⟩
    simp +decide [parseMembers, skipSpace_append hs, scanString, hk' m, skipSpace_append hs1,
      hve (.inl hr3) g (by omega) m, skipSpace_append hs3]

theorem parseValue_stable {ps : List Piece} {j : Json} {rest : List Piece}
    (h : parseValue (f + 1) ps = some (j, rest)) :
    rest <:+ ps ∧ ((rest ≠ [] ∨ ∀ lit, j ≠ .number lit) → Extends parseValue (f + 1) ps j rest) := by
  simp only [parseValue] at h
  rcases hs : skipSpace ps with _ | ⟨p, r⟩
  · simp [hs] at h
  have hpr : p :: r <:+ ps := hs ▸ skipSpace_suffix ps
  have hr : r <:+ ps := (List.suffix_cons p r).trans hpr
  simp only [hs] at h
  have hsucc : ∀ g, f + 1 ≤ g → ∃ g', g = g' + 1 ∧ f ≤ g' := fun g hg => ⟨g - 1, by omega, by omega⟩
  split_ifs at h with h1 h2 h3
  · -- an object
    subst h1
    rcases hs2 : skipSpace r with _ | ⟨q, r'⟩
    · simp [hs2] at h
    simp only [hs2] at h
    split_ifs at h with hq
    · obtain ⟨rfl, rfl⟩ := Prod.mk.inj (Option.some.inj h)
      refine ⟨(List.suffix_cons q r').trans ((hs2 ▸ skipSpace_suffix r).trans hr), fun _ g hg m => ?_⟩
      obtain ⟨g, rfl, -⟩ := hsucc g hg
      simp [parseValue, skipSpace_append hs, skipSpace_append hs2, hq]
    · simp only [Option.map_eq_map, Option.map_eq_some'] at h
      obtain ⟨⟨ms, r''⟩, hm, heq⟩ := h
      cases heq
      obtain ⟨hms, hme⟩ := ih.2.2 hm
      refine ⟨hms.trans hr, fun _ g hg m => ?_⟩
      obtain ⟨g, rfl, hfg⟩ := hsucc g hg
      simp +decide [parseValue, skipSpace_append hs, skipSpace_append hs2, hq, hme g hfg m]
  · -- an array
    subst h2
    rcases hs2 : skipSpace r with _ | ⟨q, r'⟩
    · simp [hs2] at h
    simp only [hs2] at h
    split_ifs at h with hq
    · obtain ⟨rfl, rfl⟩ := Prod.mk.inj (Option.some.inj h)
      refine ⟨(List.suffix_cons q r').trans ((hs2 ▸ skipSpace_suffix r).trans hr), fun _ g hg m => ?_⟩
      obtain ⟨g, rfl, -⟩ := hsucc g hg
      simp +decide [parseValue, skipSpace_append hs, skipSpace_append hs2, hq]
    · simp only [Option.map_eq_map, Option.map_eq_some'] at h
      obtain ⟨⟨xs, r''⟩, hx, heq⟩ := h
      cases heq
      obtain ⟨hxs, hxe⟩ := ih.2.1 hx
      refine ⟨hxs.trans hr, fun _ g hg m => ?_⟩
      obtain ⟨g, rfl, hfg⟩ := hsucc g hg
      simp +decide [parseValue, skipSpace_append hs, skipSpace_append hs2, hq, hxe g hfg m]
  · -- a string
    subst h3
    simp only [Option.map_eq_map, Option.map_eq_some'] at h
    obtain ⟨⟨s, r''⟩, hstr, heq⟩ := h
    cases heq
    refine ⟨(scanStringFrom_suffix hstr).trans hr, fun _ g hg m => ?_⟩
    obtain ⟨g, rfl, -⟩ := hsucc g hg
    simp +decide [parseValue, skipSpace_append hs, scanString, scanStringFrom_append hstr m]
  · -- a keyword or a number
    obtain ⟨hls, hle⟩ := parseValue_literal_stable h1 h2 h3 h
    refine ⟨hls.trans hpr, fun hc g hg m => ?_⟩
    obtain ⟨g, rfl, -⟩ := hsucc g hg
    simp only [parseValue, skipSpace_append hs, h1, h2, h3, if_false]
    exact hle hc m

end Step

theorem stableAt : ∀ fuel, StableAt fuel
  | 0 => by refine ⟨?_, ?_, ?_⟩ <;> intro _ _ _ h <;> cases h
  | f + 1 => ⟨fun h => parseValue_stable (stableAt f) h, fun h => parseElems_stable (stableAt f) h,
      fun h => parseMembers_stable (stableAt f) h⟩

/-- An object the reader reads ends with its closing brace. -/
theorem parseMembers_close : ∀ {f : Nat} {ps : List Piece} {ms : List (Bytes × Json)} {rest : List Piece},
    parseMembers f ps = some (ms, rest) → byte 0x7D :: rest <:+ ps
  | 0, _, _, _, h => by cases h
  | f + 1, ps, ms, rest, h => by
      obtain ⟨ps', k, r1, r2, v, r3, c, r', hs, hk, hs1, hv, hs3, hc⟩ := parseMembers_inv h
      have hchain : r3 <:+ ps :=
        ((stableAt f).1 hv).1.trans ((List.suffix_cons _ r2).trans (hs1 ▸ skipSpace_suffix r1) |>.trans
          ((scanStringFrom_suffix hk).trans ((List.suffix_cons _ ps').trans (hs ▸ skipSpace_suffix ps))))
      have hcr : c :: r' <:+ ps := (hs3 ▸ skipSpace_suffix r3).trans hchain
      rcases hc with ⟨-, ms', hrec, -⟩ | ⟨rfl, rfl, -⟩
      · exact (parseMembers_close hrec).trans ((List.suffix_cons c r').trans hcr)
      · exact hcr

/-- A value that starts with a brace is an object, and ends with a closing brace. -/
theorem parseValue_brace_close {f : Nat} {X : List Piece} {j : Json} {rest : List Piece}
    (h : parseValue f (byte 0x7B :: X) = some (j, rest)) :
    (∀ lit, j ≠ .number lit) ∧ byte 0x7D :: rest <:+ byte 0x7B :: X := by
  rcases f with _ | f
  · cases h
  simp only [parseValue, skipSpace_cons (show isSpace (byte 0x7B) = false by decide), if_true] at h
  rcases hs : skipSpace X with _ | ⟨q, r'⟩
  · simp [hs] at h
  simp only [hs] at h
  split_ifs at h with hq
  · cases h
    exact ⟨fun _ => nofun, hq ▸ (hs ▸ skipSpace_suffix X).trans (List.suffix_cons _ X)⟩
  · simp only [Option.map_eq_map, Option.map_eq_some'] at h
    obtain ⟨⟨ms, r''⟩, hm, heq⟩ := h
    cases heq
    exact ⟨fun _ => nofun, (parseMembers_close hm).trans (List.suffix_cons _ X)⟩

/-! ## Documents -/

theorem decode_eq_some {b : Bytes} {j : Json} :
    decode b = some j ↔ ∃ rest, parseValue (2 * (pieces b).length + 2) (pieces b) = some (j, rest) ∧
      skipSpace rest = [] := by
  simp only [decode]
  rcases parseValue (2 * (pieces b).length + 2) (pieces b) with _ | ⟨j', rest⟩
  · simp
  · simp only [Option.some.injEq, Prod.mk.injEq]
    constructor
    · intro hd
      split_ifs at hd with hs
      exact ⟨rest, ⟨Option.some.inj hd, rfl⟩, hs⟩
    · rintro ⟨r, ⟨rfl, rfl⟩, hs⟩
      simp [hs]

theorem isSpace_ascii {p : Piece} (h : isSpace p = true) : ∃ b, p = byte b ∧ b.toNat < 0x80 := by
  simp only [isSpace, Bool.or_eq_true, decide_eq_true_eq] at h
  rcases h with ((rfl | rfl) | rfl) | rfl <;> exact ⟨_, rfl, by decide⟩

/-- A document that reads as an object ends with an ASCII byte: the closing
brace, or a blank after it. -/
theorem ascii_last_of_decode {X : Bytes} {j : Json} (h : decode (0x7B :: X) = some j) :
    ∃ x b, 0x7B :: X = x ++ [b] ∧ b.toNat < 0x80 := by
  obtain ⟨rest, hv, hblank⟩ := decode_eq_some.mp h
  rw [pieces_ascii_cons (by decide)] at hv
  obtain ⟨c, hc⟩ := (parseValue_brace_close hv).2
  have hspace : ∀ p ∈ rest, isSpace p = true := List.dropWhile_eq_nil_iff.mp hblank
  obtain ⟨b, hlast, hb⟩ : ∃ b, (byte 0x7D :: rest).getLast? = some (byte b) ∧ b.toNat < 0x80 := by
    rcases List.eq_nil_or_concat rest with rfl | ⟨L, q, rfl⟩
    · exact ⟨0x7D, rfl, by decide⟩
    · obtain ⟨b, rfl, hb⟩ := isSpace_ascii (hspace q (by simp))
      exact ⟨b, by rw [List.concat_eq_append, ← List.cons_append, List.getLast?_concat], hb⟩
  obtain ⟨ys, hys⟩ := List.getLast?_eq_some_iff.mp hlast
  refine ⟨(c ++ ys).flatMap Piece.bytes, b, ?_, hb⟩
  have hp : pieces (0x7B :: X) = c ++ ys ++ [byte b] := by
    rw [pieces_ascii_cons (by decide), ← hc, hys, List.append_assoc]
  rw [← flatMap_bytes_pieces (0x7B :: X), hp]
  simp

/-- No proper prefix of a document that reads as an object reads: the object
would end where the prefix ends, and the rest of the document is not blank. -/
theorem decode_take_none {E : Bytes} {j : Json} (hE : decode E = some j) (hhead : E.head? = some 0x7B)
    (hlast : E.getLast? = some 0x7D) {n : Nat} (hn : n < E.length) : decode (E.take n) = none := by
  rcases n with _ | n
  · rfl
  obtain ⟨X, rfl⟩ : ∃ X, E = 0x7B :: X := by
    rcases E with _ | ⟨e, X⟩
    · cases hhead
    · cases hhead; exact ⟨X, rfl⟩
  rcases hp : decode ((0x7B :: X).take (n + 1)) with _ | j'
  · rfl
  exfalso
  set more := (0x7B :: X).drop (n + 1)
  have hmore : more ≠ [] := by simpa [more] using hn
  rw [List.take_succ_cons] at hp
  obtain ⟨x, b, hxb, hb⟩ := ascii_last_of_decode hp
  -- the document is read as the prefix followed by the rest
  have hsplit : pieces (0x7B :: X) = pieces (0x7B :: X.take n) ++ pieces more := by
    have hE : 0x7B :: X = x ++ b :: more := by
      rw [← List.take_append_drop (n + 1) (0x7B :: X), List.take_succ_cons, hxb, List.append_assoc]; rfl
    rw [hE, hxb, pieces_append_ascii hb, pieces_append_ascii hb, pieces_nil, List.append_assoc]
    rfl
  obtain ⟨rest, hv, hblank⟩ := decode_eq_some.mp hp
  have hobj := (parseValue_brace_close (by rwa [pieces_ascii_cons (by decide)] at hv)).1
  have hlen : (pieces (0x7B :: X.take n)).length ≤ (pieces (0x7B :: X)).length := by simp [hsplit]
  have hext := ((stableAt _).1 hv).2 (.inr hobj) (2 * (pieces (0x7B :: X)).length + 2) (by omega)
    (pieces more)
  rw [← hsplit] at hext
  obtain ⟨restE, hvE, hblankE⟩ := decode_eq_some.mp hE
  rw [hvE, Option.some.injEq, Prod.mk.injEq] at hext
  -- so the rest of the document is blank, but it ends with the closing brace
  have hpm : pieces more ≠ [] := fun h => hmore (by rw [← flatMap_bytes_pieces more, h]; rfl)
  obtain ⟨y, hy⟩ : ∃ y, 0x7B :: X = y ++ [0x7D] :=
    ⟨(0x7B :: X).dropLast, (List.dropLast_append_getLast? _ hlast).symm⟩
  have hlastE : (pieces (0x7B :: X)).getLast? = some (byte 0x7D) := by
    rw [hy, pieces_append_ascii (by decide), pieces_nil]; simp [byte]
  have hmem : byte 0x7D ∈ restE := by
    have h1 : (pieces more).getLast? = some (byte 0x7D) := by
      rw [← List.getLast?_append_of_ne_nil (pieces (0x7B :: X.take n)) hpm, ← hsplit, hlastE]
    obtain ⟨ys, hys⟩ := List.getLast?_eq_some_iff.mp h1
    rw [hext.2, hys]
    simp
  have := List.dropWhile_eq_nil_iff.mp hblankE _ hmem
  exact absurd this (by decide)

/-- An object as the writer writes it opens with its first byte and closes
with its last. -/
theorem encodeAt_object_ends (indent : Option Bytes) (d : Nat) (ms : List (Bytes × Json)) :
    (encodeAt indent d (.object ms)).head? = some 0x7B ∧ (encodeAt indent d (.object ms)).getLast? = some 0x7D := by
  rcases ms with _ | ⟨m, ms⟩
  · simp only [encodeAt, ofString_braces]; decide
  · refine ⟨rfl, ?_⟩
    simp only [encodeAt]
    exact List.getLast?_concat _

/-- No proper prefix of an object `json.Marshal` or `json.MarshalIndent` wrote reads. -/
theorem decode_take_encodeAt_object {indent : Option Bytes} (h : Layout indent) {ms : List (Bytes × Json)}
    (hms : (object ms).wellFormed) {n : Nat} (hn : n < (encodeAt indent 0 (.object ms)).length) :
    decode ((encodeAt indent 0 (.object ms)).take n) = none :=
  decode_take_none (decode_encodeAt h hms) (encodeAt_object_ends indent 0 ms).1
    (encodeAt_object_ends indent 0 ms).2 hn

/-- Nor does a proper prefix of `null`. -/
theorem decode_take_null (indent : Option Bytes) {n : Nat} (hn : n < (encodeAt indent 0 .null).length) :
    decode ((encodeAt indent 0 .null).take n) = none := by
  simp only [encodeAt, ofString_null, List.length_cons, List.length_nil] at hn ⊢
  match n, hn with
  | 0, _ | 1, _ | 2, _ | 3, _ => rfl

end OmniVault.Json
