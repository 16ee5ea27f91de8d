import OmniVault.Go.Strings

/-!
Decimal numerals as `strconv` writes and reads them: `FormatUint` and
`FormatInt` in base 10, which `encoding/json` uses for Go's integer types,
and `ParseUint` and `ParseInt` in base 10, which it uses to read a number
literal into one. Only base 10 is modelled.
-/

namespace OmniVault.Strconv

/-- The decimal digit `d` as an ASCII byte. -/
def digitByte (d : Nat) : UInt8 := UInt8.ofNat (0x30 + d)

/-- The last `w` decimal digits of `n`, most significant first. -/
def fixedDigits : Nat → Nat → Bytes
  | 0, _ => []
  | w + 1, n => fixedDigits w (n / 10) ++ [digitByte (n % 10)]

/-- The number of decimal digits of `n`, found within `fuel` divisions. -/
def digitCount : Nat → Nat → Nat
  | 0, _ => 1
  | fuel + 1, n => if n < 10 then 1 else digitCount fuel (n / 10) + 1
/-- `strconv.FormatUint(n, 10)`: the digits of `n` with no leading zero. -/
def formatUint (n : Nat) : Bytes := fixedDigits (digitCount n n) n

/-- `strconv.FormatInt(x, 10)`. -/
def formatInt (x : Int) : Bytes := (if x < 0 then [0x2D] else []) ++ formatUint x.natAbs

/-- The value of a run of decimal digits. -/
def digitsValue (s : Bytes) : Nat := s.foldl (fun x c => x * 10 + (c.toNat - 0x30)) 0
/-- `strconv.ParseUint(s, 10, bitSize)`: one or more digits whose value fits. -/
def parseUint (s : Bytes) (bitSize : Nat) : Option Nat :=
  if s ≠ [] ∧ s.all Bytes.isDigit ∧ digitsValue s < 2 ^ bitSize then some (digitsValue s) else none

/-- `strconv.ParseInt(s, 10, bitSize)`: an optional sign, then digits whose
value fits in the signed range. -/
def parseInt (s : Bytes) (bitSize : Nat) : Option Int :=
  match s with
  | 0x2D :: ds => (parseUint ds bitSize).bind fun n =>
      if n ≤ 2 ^ (bitSize - 1) then some (-(n : Int)) else none
  | 0x2B :: ds => (parseUint ds bitSize).bind fun n =>
      if n < 2 ^ (bitSize - 1) then some (n : Int) else none
  | _ => (parseUint s bitSize).bind fun n =>
      if n < 2 ^ (bitSize - 1) then some (n : Int) else none

theorem digitByte_toNat {d : Nat} (h : d < 10) : (digitByte d).toNat = 48 + d :=
  UInt8.toNat_ofNat_of_lt (by unfold UInt8.size; omega)

theorem isDigit_digitByte {d : Nat} (h : d < 10) : Bytes.isDigit (digitByte d) := by
  simp [Bytes.isDigit, digitByte_toNat h]
  omega

@[simp] theorem fixedDigits_length (w n : Nat) : (fixedDigits w n).length = w := by
  induction w generalizing n with
  | zero => rfl
  | succ w ih => simp [fixedDigits, ih]

theorem fixedDigits_isDigit (w n : Nat) : ∀ c ∈ fixedDigits w n, Bytes.isDigit c := by
  induction w generalizing n with
  | zero => simp [fixedDigits]
  | succ w ih =>
      simp only [fixedDigits, List.mem_append, List.mem_singleton]
      rintro c (hc | rfl)
      · exact ih _ c hc
      · exact isDigit_digitByte (Nat.mod_lt n (by decide))

theorem digitsValue_append (a b : Bytes) :
    digitsValue (a ++ b) = b.foldl (fun x c => x * 10 + (c.toNat - 0x30)) (digitsValue a) :=
  List.foldl_append _ _ _ _

theorem digitsValue_fixedDigits (w n : Nat) : digitsValue (fixedDigits w n) = n % 10 ^ w := by
  induction w generalizing n with
  | zero => simp [fixedDigits, digitsValue, Nat.mod_one]
  | succ w ih =>
      have hsplit : n % (10 * 10 ^ w) = n % 10 + 10 * (n / 10 % 10 ^ w) := Nat.mod_mul
      rw [fixedDigits, digitsValue_append, ih, List.foldl_cons, List.foldl_nil,
        digitByte_toNat (Nat.mod_lt n (by decide)), Nat.pow_succ', hsplit]
      omega

theorem digitsValue_append_zeros (a : Bytes) (z : Nat) :
    digitsValue (a ++ List.replicate z 0x30) = digitsValue a * 10 ^ z := by
  induction z with
  | zero => simp
  | succ z ih =>
      rw [List.replicate_succ', ← List.append_assoc, digitsValue_append, List.foldl_cons,
        List.foldl_nil, ih, show (0x30 : UInt8).toNat - 0x30 = 0 from rfl, Nat.add_zero, Nat.pow_succ,
        Nat.mul_assoc]

theorem digitCount_le {n w : Nat} (hn : n < 10 ^ w) (hw : 1 ≤ w) : ∀ fuel, digitCount fuel n ≤ w := by
  induction w generalizing n with
  | zero => omega
  | succ w ih =>
      intro fuel
      cases fuel with
      | zero => simp [digitCount]
      | succ fuel =>
          simp only [digitCount]
          split
          · omega
          · have h10 : n / 10 < 10 ^ w := by rw [Nat.pow_succ] at hn; omega
            have hw' : 1 ≤ w := by
              rcases Nat.eq_zero_or_pos w with rfl | h
              · simp at hn; omega
              · exact h
            have := ih h10 hw' fuel
            omega

theorem lt_pow_digitCount : ∀ fuel n, n ≤ fuel → n < 10 ^ digitCount fuel n
  | 0, n, h => by simp [digitCount]; omega
  | fuel + 1, n, h => by
    simp only [digitCount]
    split
    · simpa using ‹n < 10›
    · have := lt_pow_digitCount fuel (n / 10) (by omega)
      rw [Nat.pow_succ]
      omega

theorem one_le_digitCount : ∀ fuel n, 1 ≤ digitCount fuel n
  | 0, _ => le_rfl
  | fuel + 1, n => by
    simp only [digitCount]
    split
    · exact le_rfl
    · omega

theorem pow_digitCount_le : ∀ fuel n, n ≤ fuel → 10 ^ (digitCount fuel n - 1) ≤ max n 1
  | 0, n, h => by simp [digitCount]
  | fuel + 1, n, h => by
    simp only [digitCount]
    split
    · simp
    · have := pow_digitCount_le fuel (n / 10) (by omega)
      have hpos := one_le_digitCount fuel (n / 10)
      rw [Nat.add_sub_cancel, show digitCount fuel (n / 10) = digitCount fuel (n / 10) - 1 + 1 by omega,
        Nat.pow_succ]
      omega

theorem digitsValue_formatUint (n : Nat) : digitsValue (formatUint n) = n := by
  rw [formatUint, digitsValue_fixedDigits, Nat.mod_eq_of_lt (lt_pow_digitCount n n le_rfl)]

theorem parseUint_formatUint {n bits : Nat} (h : n < 2 ^ bits) :
    parseUint (formatUint n) bits = some n := by
  have hne : formatUint n ≠ [] :=
    List.ne_nil_of_length_pos (by simpa [formatUint] using one_le_digitCount n n)
  have hdigits : (formatUint n).all Bytes.isDigit :=
    List.all_eq_true.mpr (fixedDigits_isDigit _ n)
  simp [parseUint, hne, hdigits, digitsValue_formatUint, h]

/-- The leading digit of `w + 1` digits, in front of the last `w`. -/
theorem fixedDigits_succ (w n : Nat) :
    fixedDigits (w + 1) n = digitByte (n / 10 ^ w % 10) :: fixedDigits w n := by
  induction w generalizing n with
  | zero => simp [fixedDigits]
  | succ w ih =>
      rw [fixedDigits, ih, fixedDigits, Nat.div_div_eq_div_mul, ← Nat.pow_succ']
      rfl

/-- `FormatUint` writes a single digit, or a non-zero digit and more digits. -/
theorem formatUint_shape (n : Nat) :
    ∃ d ds, formatUint n = d :: ds ∧ Bytes.isDigit d ∧ (ds ≠ [] → d ≠ 0x30) ∧
      ∀ c ∈ ds, Bytes.isDigit c := by
  obtain ⟨w, hw⟩ : ∃ w, digitCount n n = w + 1 :=
    ⟨digitCount n n - 1, by have := one_le_digitCount n n; omega⟩
  have hlt := lt_pow_digitCount n n le_rfl
  have hle := pow_digitCount_le n n le_rfl
  rw [hw] at hlt hle
  have hlead : n / 10 ^ w % 10 < 10 := Nat.mod_lt _ (by decide)
  refine ⟨_, _, by rw [formatUint, hw, fixedDigits_succ], isDigit_digitByte hlead, ?_,
    fixedDigits_isDigit w n⟩
  intro hne
  have hw1 : 1 ≤ w := by
    rcases Nat.eq_zero_or_pos w with rfl | h
    · simp [fixedDigits] at hne
    · exact h
  have hpow0 : 0 < 10 ^ w := Nat.pos_of_ne_zero (by simp)
  have hpow : 10 ^ w ≤ n := by
    have h10 : 10 ^ 1 ≤ 10 ^ w := Nat.pow_le_pow_right (by decide) hw1
    rw [Nat.add_sub_cancel] at hle
    omega
  have hpos : 1 ≤ n / 10 ^ w := (Nat.le_div_iff_mul_le hpow0).mpr (by simpa using hpow)
  have hsmall : n / 10 ^ w < 10 := by
    rw [Nat.div_lt_iff_lt_mul hpow0, Nat.mul_comm, ← Nat.pow_succ]; exact hlt
  intro h0
  have hd := digitByte_toNat hlead
  rw [h0, show (48 : UInt8).toNat = 48 from rfl] at hd
  omega

end OmniVault.Strconv
