import Exchange.Lib.Text

/-!
# Prices as the web client writes and reads them

`formatPrice` and `parsePrice` of `web/src/types.ts`. A price is a whole number, and `priceExp` says
where its decimal point is. With a negative exponent the text has as many digits behind the point as
the exponent says, so that reading it takes the point out again. With a positive one `formatPrice`
writes the zeros, and `parsePrice` reads them as digits of the price.

A `bigint` is an `Int`. `10 ** n` is a double.
-/

namespace Exchange.Web

open Lib

/-! ## Numbers of the language -/

/-- The double next to a whole number: its 53 leading bits, rounded to even. -/
def nearestDouble (n : Nat) : Nat :=
  let unit := 2 ^ (Nat.log2 n + 1 - 53)
  let mantissa := n / unit
  let rest := n % unit
  if unit < 2 * rest ∨ (2 * rest = unit ∧ mantissa % 2 = 1) then (mantissa + 1) * unit
  else mantissa * unit

/-- `BigInt(10 ** n)`, as long as the double is finite. -/
def powTen (n : Nat) : Nat := nearestDouble (10 ^ n)

/-- Up to here the power is a double. -/
theorem powTen_exact : ∀ {n : Nat}, n ≤ 22 → powTen n = 10 ^ n := by
  have hall : ∀ n < 23, powTen n = 10 ^ n := by decide
  intro n hn
  exact hall n (by omega)

/-! ## Strings of the language -/

/-- `padStart(n, '0')`. -/
def padStart (cs : List Char) (n : Nat) : List Char := List.replicate (n - cs.length) '0' ++ cs

/-- `padEnd(n, '0')`. -/
def padEnd (cs : List Char) (n : Nat) : List Char := cs ++ List.replicate (n - cs.length) '0'

/-- `BigInt(cs.replace(/[^0-9]/g, '') || '0')`. -/
def digitsOf (cs : List Char) : Int :=
  let clean := cs.filter Char.isDigit
  if clean = [] then 0 else Nat.ofDigitChars 10 clean 0

/-- The digits of a text, others left out. -/
theorem digitsOf_eq (cs : List Char) : digitsOf cs = Nat.ofDigitChars 10 (cs.filter Char.isDigit) 0 := by
  unfold digitsOf
  dsimp only
  split
  · rename_i hnil
    rw [hnil, Nat.ofDigitChars_nil]
    rfl
  · rfl

/-- A number is read back, with as many zeros in front of it as there may be. -/
theorem digitsOf_zeros (k n : Nat) : digitsOf (List.replicate k '0' ++ Text.ofNat n) = n := by
  have hdigits : (List.replicate k '0' ++ Text.ofNat n).filter Char.isDigit =
      List.replicate k '0' ++ Text.ofNat n := by
    refine List.filter_eq_self.mpr fun c hc => ?_
    rcases List.mem_append.mp hc with hzero | hdigit
    · rw [List.eq_of_mem_replicate hzero]
      rfl
    · exact Text.isDigit_ofNat hdigit
  rw [digitsOf_eq, hdigits, Nat.ofDigitChars_append, Nat.ofDigitChars_replicate_zero, Nat.mul_zero]
  exact congrArg _ Nat.ofDigitChars_ten_toDigits

/-- A number's digits are the number. -/
theorem digitsOf_ofNat (n : Nat) : digitsOf (Text.ofNat n) = n := digitsOf_zeros 0 n

/-! ## Prices -/

/-- `formatPrice`. -/
def formatPrice (price : Int) (priceExp : Option Int) : List Char :=
  match priceExp with
  | none => Text.ofInt price
  | some e =>
    if 0 ≤ e then Text.ofInt (price * powTen e.toNat)
    else
      let expLength := (-e).toNat
      let factor := powTen expLength
      let isNegative := price < 0
      let absPrice := price.natAbs
      let integerPart := absPrice / factor
      let fractionalPart := absPrice % factor
      let fracStr := padStart (Text.ofNat fractionalPart) expLength
      (if isNegative then ['-'] else []) ++ Text.ofNat integerPart ++ '.' :: fracStr

/-- `parsePrice`. -/
def parsePrice (priceStr : List Char) (priceExp : Option Int) : Int :=
  match priceExp with
  | none => digitsOf priceStr
  | some e =>
    if 0 ≤ e then digitsOf priceStr
    else
      let parts := priceStr.splitOn '.'
      let integerPart := digitsOf (parts.head?.getD [])
      let fractionStr := (parts[1]?).getD []
      let expLength := (-e).toNat
      let fractionStr :=
        if expLength < fractionStr.length then fractionStr.take expLength
        else padEnd fractionStr expLength
      integerPart * powTen expLength + digitsOf fractionStr

/-- A fraction below the factor has the digits that it is padded to. -/
theorem length_padStart {n k : Nat} (hk : 0 < k) (hn : n < 10 ^ k) :
    (padStart (Text.ofNat n) k).length = k := by
  have hle : (Text.ofNat n).length ≤ k := (Nat.length_toDigits_le_iff (by decide) hk).mpr hn
  unfold padStart
  rw [List.length_append, List.length_replicate]
  omega

/-- There is one point in the text, and it comes apart there. -/
theorem splitOn_point (n m k : Nat) : (Text.ofNat n ++ '.' :: padStart (Text.ofNat m) k).splitOn '.' =
    [Text.ofNat n, padStart (Text.ofNat m) k] := by
  have hpoint : ∀ {cs : List Char}, (∀ c ∈ cs, c.isDigit = true) → ∀ c ∈ cs, (c == '.') = false := by
    intro cs hdigits c hc
    rw [beq_eq_false_iff_ne]
    rintro rfl
    exact absurd (hdigits _ hc) (by decide)
  have hint : ∀ c ∈ Text.ofNat n, (c == '.') = false := hpoint fun c hc => Text.isDigit_ofNat hc
  have hfrac : ∀ c ∈ padStart (Text.ofNat m) k, (c == '.') = false := by
    refine hpoint fun c hc => ?_
    rcases List.mem_append.mp hc with hzero | hdigit
    · rw [List.eq_of_mem_replicate hzero]
      rfl
    · exact Text.isDigit_ofNat hdigit
  unfold List.splitOn
  rw [List.splitOnP_append_cons _ _ (by simp), List.splitOnP_eq_singleton hint,
    List.splitOnP_eq_singleton hfrac]
  rfl

/-- With a negative exponent the text is read as the price it was written from. -/
theorem parsePrice_negative {price e : Int} (hprice : 0 ≤ price) (he : e < 0) (hsmall : -22 ≤ e) :
    parsePrice (formatPrice price (some e)) (some e) = price := by
  obtain ⟨n, rfl⟩ := Int.eq_ofNat_of_zero_le hprice
  have hk : 0 < (-e).toNat := by omega
  have hpow : powTen (-e).toNat = 10 ^ (-e).toNat := powTen_exact (by omega)
  have hfrac : n % 10 ^ (-e).toNat < 10 ^ (-e).toNat := Nat.mod_lt _ (Nat.pow_pos (by decide))
  have htext : formatPrice n (some e) = Text.ofNat (n / 10 ^ (-e).toNat) ++
      '.' :: padStart (Text.ofNat (n % 10 ^ (-e).toNat)) (-e).toNat := by
    unfold formatPrice
    dsimp only
    rw [if_neg (by omega), if_neg (by omega), hpow, Int.natAbs_natCast]
    rfl
  have hpad : padEnd (padStart (Text.ofNat (n % 10 ^ (-e).toNat)) (-e).toNat) (-e).toNat =
      padStart (Text.ofNat (n % 10 ^ (-e).toNat)) (-e).toNat := by
    unfold padEnd
    rw [length_padStart hk hfrac, Nat.sub_self, List.replicate_zero, List.append_nil]
  unfold parsePrice
  dsimp only
  rw [if_neg (by omega), htext, splitOn_point]
  show digitsOf (Text.ofNat _) * _ +
    digitsOf (if (-e).toNat < (padStart _ _).length then _ else padEnd (padStart _ _) _) = _
  rw [if_neg (by rw [length_padStart hk hfrac]; omega), hpad, digitsOf_ofNat, hpow]
  unfold padStart
  rw [digitsOf_zeros]
  exact_mod_cast Nat.div_add_mod' n (10 ^ (-e).toNat)

/-- Otherwise it is read as the number that it says. -/
theorem parsePrice_positive {price e : Int} (hprice : 0 ≤ price) (he : 0 ≤ e) (hsmall : e ≤ 22) :
    parsePrice (formatPrice price (some e)) (some e) = price * 10 ^ e.toNat := by
  obtain ⟨n, rfl⟩ := Int.eq_ofNat_of_zero_le hprice
  have hpow : powTen e.toNat = 10 ^ e.toNat := powTen_exact (by omega)
  have hnumber : (n : Int) * (10 ^ e.toNat : Nat) = ((n * 10 ^ e.toNat : Nat) : Int) := by push_cast; rfl
  unfold parsePrice formatPrice Text.ofInt
  dsimp only
  rw [if_pos he, if_pos he, hpow, hnumber, if_neg (by omega), Int.natAbs_natCast, digitsOf_ofNat]
  push_cast
  rfl

/-- A price is read back from its text if it is zero, or if the exponent is not positive. -/
theorem price_round_trip_iff {price priceExp : Int} (hprice : 0 ≤ price) (hexp : priceExp.natAbs ≤ 22) :
    parsePrice (formatPrice price (some priceExp)) (some priceExp) = price ↔ price = 0 ∨ priceExp ≤ 0 := by
  rcases Int.lt_or_le priceExp 0 with hneg | hpos
  · have hback := parsePrice_negative hprice hneg (by omega)
    constructor
    · exact fun _ => Or.inr (by omega)
    · exact fun _ => hback
  · rw [parsePrice_positive hprice hpos (by omega)]
    constructor
    · intro heq
      by_contra hnot
      obtain ⟨hne, hlt⟩ := not_or.mp hnot
      -- ten or more times a price that is not zero
      have hten : (10 : Int) ≤ 10 ^ priceExp.toNat := by
        have hstep : priceExp.toNat = priceExp.toNat - 1 + 1 := by omega
        have hone : (0 : Int) < 10 ^ (priceExp.toNat - 1) := Int.pow_pos (by decide)
        rw [hstep, pow_succ]
        omega
      have hmore : price * 10 ≤ price * 10 ^ priceExp.toNat := Int.mul_le_mul_of_nonneg_left hten hprice
      omega
    · rintro (rfl | hle)
      · exact Int.zero_mul _
      · obtain rfl : priceExp = 0 := by omega
        exact Int.mul_one _

theorem sample_price : parsePrice (formatPrice 8000005 (some (-4))) (some (-4)) = 8000005 := by
  have hback := (@price_round_trip_iff 8000005 (-4) (by decide) (by decide)).mpr
  exact hback (Or.inr (by decide))

/-- A price of 5 with exponent 1 is written as 50, and that is what is read. -/
theorem price_grows : ¬ ∀ price priceExp : Int, 0 ≤ price → priceExp.natAbs ≤ 22 →
    parsePrice (formatPrice price (some priceExp)) (some priceExp) = price := by
  intro h
  have hread := h 5 1 (by decide) (by decide)
  rw [parsePrice_positive (by decide) (by decide) (by decide)] at hread
  exact absurd hread (by decide)

end Exchange.Web
