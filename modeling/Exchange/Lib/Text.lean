import Mathlib.Algebra.Ring.Int.Defs
import Mathlib.Algebra.Ring.Nat
import Mathlib.Data.List.TakeWhile

/-!
# Numbers, lines and cells

Text as the C++ library writes and reads it: `std::to_string`, `std::stoul` and `std::stoll`, and
the pieces that `std::getline` makes of a text. What is written reads back (`stoul_toString`,
`stoll_toString`, `pieces_intercalate`).
-/

namespace Exchange.Lib.Text

/-! ## Numbers -/

/-- `std::to_string` of an unsigned number. -/
def ofNat (n : Nat) : List Char := Nat.toDigits 10 n

/-- `std::to_string` of a signed number. -/
def ofInt (n : Int) : List Char := if n < 0 then '-' :: ofNat n.natAbs else ofNat n.natAbs

/-- `std::isspace`. -/
def isSpace (c : Char) : Bool := c = ' ' ∨ (9 ≤ c.toNat ∧ c.toNat ≤ 13)

/-- A sign, and what is behind it. -/
def sign : List Char → Bool × List Char
  | '-' :: cs => (true, cs)
  | '+' :: cs => (false, cs)
  | cs => (false, cs)

/-- A number in decimal digits, as far as they go; none without a digit. -/
def digits (cs : List Char) : Option Nat :=
  let ds := cs.takeWhile Char.isDigit
  if ds = [] then none else some (Nat.ofDigitChars 10 ds 0)

/-- Space, a sign, and a number: what the `strtol` family reads. -/
def number (cs : List Char) : Option (Bool × Nat) :=
  (digits (sign (cs.dropWhile isSpace)).2).map ((sign (cs.dropWhile isSpace)).1, ·)

/-- `std::stoul` where `unsigned long` has 64 bits; none is an exception. A minus sign negates the
word. -/
def stoul (cs : List Char) : Option Nat :=
  match number cs with
  | none => none
  | some (negative, n) =>
    if n < 2 ^ 64 then some (if negative then (2 ^ 64 - n) % 2 ^ 64 else n) else none

/-- `std::stoll`; none is an exception. -/
def stoll (cs : List Char) : Option Int :=
  match number cs with
  | none => none
  | some (negative, n) =>
    let z := if negative then -(n : Int) else n
    if -2 ^ 63 ≤ z ∧ z < 2 ^ 63 then some z else none

theorem isDigit_ofNat {n : Nat} {c : Char} (h : c ∈ ofNat n) : c.isDigit = true :=
  Nat.isDigit_of_mem_toDigits (by decide) (by decide) h

theorem ofNat_ne_nil (n : Nat) : ofNat n ≠ [] := Nat.toDigits_ne_nil

theorem digits_ofNat (n : Nat) : digits (ofNat n) = some n := by
  have hall : (ofNat n).takeWhile Char.isDigit = ofNat n :=
    List.takeWhile_eq_self_iff.mpr fun _ => isDigit_ofNat
  unfold digits
  dsimp only
  rw [hall, if_neg (ofNat_ne_nil n)]
  exact congrArg some Nat.ofDigitChars_ten_toDigits

/-- A digit is a character from 48 to 57. -/
theorem toNat_isDigit {c : Char} (h : c.isDigit = true) : 48 ≤ c.toNat ∧ c.toNat ≤ 57 := by
  unfold Char.isDigit at h
  simp only [Bool.and_eq_true, decide_eq_true_eq, ge_iff_le, UInt32.le_iff_toNat_le] at h
  exact h

/-- A digit is neither space nor sign. -/
theorem sign_of_isDigit {c : Char} (h : c.isDigit = true) (cs : List Char) :
    sign ((c :: cs).dropWhile isSpace) = (false, c :: cs) := by
  obtain ⟨hlow, hhigh⟩ := toNat_isDigit h
  have hspace : isSpace c = false := by
    unfold isSpace
    rw [decide_eq_false_iff_not]
    rintro (rfl | hc)
    · exact absurd hlow (by decide)
    · omega
  have hminus : c ≠ '-' := by
    rintro rfl
    exact absurd hlow (by decide)
  have hplus : c ≠ '+' := by
    rintro rfl
    exact absurd hlow (by decide)
  rw [List.dropWhile_cons, hspace, if_neg Bool.false_ne_true]
  unfold sign
  split
  · rename_i heq
    exact absurd (List.cons.inj heq).1 hminus
  · rename_i heq
    exact absurd (List.cons.inj heq).1 hplus
  · rfl

theorem sign_ofNat (n : Nat) : sign ((ofNat n).dropWhile isSpace) = (false, ofNat n) := by
  cases h : ofNat n with
  | nil => exact absurd h (ofNat_ne_nil n)
  | cons c cs => exact sign_of_isDigit (isDigit_ofNat (h ▸ List.mem_cons_self)) cs

theorem number_ofNat (n : Nat) : number (ofNat n) = some (false, n) := by
  unfold number
  rw [sign_ofNat, digits_ofNat]
  rfl

theorem number_neg (n : Nat) : number ('-' :: ofNat n) = some (true, n) := by
  have hsign : sign (('-' :: ofNat n).dropWhile isSpace) = (true, ofNat n) := rfl
  unfold number
  rw [hsign, digits_ofNat]
  rfl

theorem stoul_ofNat {n : Nat} (h : n < 2 ^ 64) : stoul (ofNat n) = some n := by
  unfold stoul
  rw [number_ofNat]
  dsimp only
  rw [if_pos h, if_neg Bool.false_ne_true]

theorem stoll_ofInt {n : Int} (h : -2 ^ 63 ≤ n ∧ n < 2 ^ 63) : stoll (ofInt n) = some n := by
  unfold stoll ofInt
  by_cases hneg : n < 0
  · have habs : -(n.natAbs : Int) = n := by omega
    rw [if_pos hneg, number_neg]
    dsimp only
    rw [if_pos rfl, habs, if_pos h]
  · have habs : (n.natAbs : Int) = n := by omega
    rw [if_neg hneg, number_ofNat]
    dsimp only
    rw [if_neg Bool.false_ne_true, habs, if_pos h]

/-- What a number is written with. -/
theorem mem_ofInt {n : Int} {c : Char} (h : c ∈ ofInt n) : c.isDigit = true ∨ c = '-' := by
  unfold ofInt at h
  split at h
  · rcases List.mem_cons.mp h with rfl | h
    · exact Or.inr rfl
    · exact Or.inl (isDigit_ofNat h)
  · exact Or.inl (isDigit_ofNat h)

theorem ofInt_ne_nil (n : Int) : ofInt n ≠ [] := by
  unfold ofInt
  split
  · exact List.cons_ne_nil _ _
  · exact ofNat_ne_nil _

/-! ## Lines and cells -/

/-- The pieces `std::getline` yields, with `acc` read already: each up to the delimiter, and what is
left behind the last one, if anything is. -/
def piecesFrom (delim : Char) (acc : List Char) : List Char → List (List Char)
  | [] => if acc = [] then [] else [acc]
  | c :: cs => if c = delim then acc :: piecesFrom delim [] cs else piecesFrom delim (acc ++ [c]) cs

/-- The pieces of a text. -/
def pieces (delim : Char) (text : List Char) : List (List Char) := piecesFrom delim [] text

/-- A word without the delimiter is part of its piece. -/
theorem piecesFrom_append {delim : Char} {word : List Char} (h : delim ∉ word) (acc rest : List Char) :
    piecesFrom delim acc (word ++ rest) = piecesFrom delim (acc ++ word) rest := by
  induction word generalizing acc with
  | nil => rw [List.append_nil, List.nil_append]
  | cons c word ih =>
    obtain ⟨hc, hword⟩ := not_or.mp (mt List.mem_cons.mpr h)
    rw [List.cons_append, piecesFrom, if_neg (Ne.symm hc), ih hword, List.append_assoc, List.singleton_append]

/-- A piece, and its delimiter. -/
theorem pieces_cons {delim : Char} {word : List Char} (h : delim ∉ word) (rest : List Char) :
    pieces delim (word ++ delim :: rest) = word :: pieces delim rest := by
  unfold pieces
  rw [piecesFrom_append h, List.nil_append, piecesFrom, if_pos rfl]

/-- Words that are joined come apart again. -/
theorem pieces_intercalate {delim : Char} {words : List (List Char)}
    (h : ∀ w ∈ words, w ≠ [] ∧ delim ∉ w) : pieces delim ([delim].intercalate words) = words := by
  induction words with
  | nil => rfl
  | cons w words ih =>
    obtain ⟨⟨hne, hw⟩, hrest⟩ := List.forall_mem_cons.mp h
    cases words with
    | nil =>
      have hlast : piecesFrom delim [] (w ++ []) = [w] := by
        rw [piecesFrom_append hw, List.nil_append, piecesFrom, if_neg hne]
      rw [List.append_nil] at hlast
      rw [List.intercalate_singleton]
      exact hlast
    | cons w' words =>
      rw [List.intercalate_cons_cons, List.append_assoc, List.singleton_append, pieces_cons hw, ih hrest]

end Exchange.Lib.Text
