import SchemaCompiler.Json.Number
import SchemaCompiler.Proofs.Decimal.Digits

/-
Number literals as they are written and read.

A literal that has the form of the grammar is read from its sign, its digits before the point,
its fraction and its exponent, one after the other.  A literal without fraction and exponent is
nothing but its sign and its digits.
-/

namespace SchemaCompiler
namespace Json

/-! ### Digits before the point -/

theorem isWholePart_of_leading {c : Char} (leading : c ≠ '0') (rest : List Char) :
    isWholePart (c :: rest) = true := by
  rw [isWholePart]
  · exact bne_iff_ne.mpr leading
  · intro zero _
    exact leading zero

theorem exists_cons_of_digits {n : Nat} (positive : 0 < n) :
    ∃ d rest, Decimal.digits n = d :: rest ∧ d ≠ '0' ∧ ∀ c ∈ d :: rest, c.isDigit = true := by
  have leading := Decimal.head?_digits_ne_zero positive
  cases written : Decimal.digits n with
  | nil => exact absurd written (Decimal.digits_ne_nil n)
  | cons d rest =>
      rw [written, List.head?_cons, ne_eq, Option.some.injEq] at leading
      refine ⟨d, rest, rfl, leading, fun c member => ?_⟩
      exact Decimal.isDigit_of_mem_digits (written ▸ member)

theorem isWholePart_digits (n : Nat) : isWholePart (Decimal.digits n) = true := by
  rcases Nat.eq_zero_or_pos n with rfl | positive
  · rfl
  · obtain ⟨d, rest, written, leading, _⟩ := exists_cons_of_digits positive
    rw [written]
    exact isWholePart_of_leading leading rest

theorem digits_value_of_isWholePart {cs : List Char} (isWhole : isWholePart cs = true)
    (each : ∀ c ∈ cs, c.isDigit = true) : Decimal.digits (Decimal.value cs) = cs := by
  cases cs with
  | nil => cases isWhole
  | cons c rest =>
      by_cases zero : c = '0'
      · subst zero
        cases rest with
        | nil => decide
        | cons next rest => cases isWhole
      · exact Decimal.digits_value zero each

/-! ### The parts of a literal -/

namespace NumberLiteral

/-- A point and the digits after it, if there are any. -/
def fractionChars : List Char → List Char
  | [] => []
  | c :: rest => '.' :: c :: rest

theorem fractionChars_of_ne_nil {ds : List Char} (nonempty : ds ≠ []) :
    fractionChars ds = '.' :: ds := by
  cases ds with
  | nil => exact absurd rfl nonempty
  | cons c rest => rfl

/-- An exponent with its mark and sign. -/
def exponentChars : Option (Bool × List Char) → List Char
  | none => []
  | some (negative, ds) => 'e' :: (if negative then '-' else '+') :: ds

/-- A literal without its sign. -/
def chars (literal : NumberLiteral) : List Char :=
  literal.whole ++ (fractionChars literal.fraction ++ exponentChars literal.exponent)

/-- Characters after a minus sign, if there is one. -/
def signed (negative : Bool) (cs : List Char) : List Char :=
  if negative then '-' :: cs else cs

/-- The parts of a literal that has the form of the grammar. -/
structure WellFormed (literal : NumberLiteral) : Prop where
  isWhole : isWholePart literal.whole = true
  whole : ∀ c ∈ literal.whole, c.isDigit = true
  fraction : ∀ c ∈ literal.fraction, c.isDigit = true
  exponent : ∀ negative ds, literal.exponent = some (negative, ds) →
    ds ≠ [] ∧ ∀ c ∈ ds, c.isDigit = true

theorem readExponent?_signed (negative : Bool) {ds : List Char} (nonempty : ds ≠ [])
    (each : ∀ c ∈ ds, c.isDigit = true) :
    readExponent? ((if negative then '-' else '+') :: ds) = some (negative, ds) := by
  have digits : ds.all Char.isDigit = true := List.all_eq_true.mpr each
  cases negative <;> simp [readExponent?, nonempty, digits]

theorem readTail?_exponentChars {literal : NumberLiteral} (wellFormed : literal.WellFormed) :
    readTail? literal.negative literal.whole literal.fraction (exponentChars literal.exponent) =
      some literal := by
  obtain ⟨negative, whole, fraction, exponent⟩ := literal
  match exponent with
  | none => rfl
  | some (sign, ds) =>
      have ⟨nonempty, each⟩ := wellFormed.exponent sign ds rfl
      show (readExponent? ((if sign then '-' else '+') :: ds)).map _ = _
      rw [readExponent?_signed sign nonempty each]
      rfl

theorem takeWhile_exponentChars (exponent : Option (Bool × List Char)) :
    (exponentChars exponent).takeWhile Char.isDigit = [] := by
  match exponent with
  | none => rfl
  | some (_, _) => rfl

theorem dropWhile_exponentChars (exponent : Option (Bool × List Char)) :
    (exponentChars exponent).dropWhile Char.isDigit = exponentChars exponent := by
  match exponent with
  | none => rfl
  | some (_, _) => rfl

theorem readUnsigned?_chars {literal : NumberLiteral} (wellFormed : literal.WellFormed) :
    readUnsigned? literal.negative literal.chars = some literal := by
  have last := readTail?_exponentChars wellFormed
  have ⟨isWhole, whole, fraction, _⟩ := wellFormed
  rw [readUnsigned?, chars, List.takeWhile_append_of_pos whole, List.dropWhile_append_of_pos whole]
  cases after : literal.fraction with
  | nil =>
      rw [after] at last
      rw [fractionChars, List.nil_append, takeWhile_exponentChars, dropWhile_exponentChars,
        List.append_nil, if_pos isWhole, ← last]
      match literal.exponent with
      | none => rfl
      | some (_, _) => rfl
  | cons c rest =>
      rw [after] at last fraction
      have noDigit : ('.' : Char).isDigit = false := rfl
      rw [fractionChars, List.cons_append, List.takeWhile_cons, noDigit, if_neg Bool.false_ne_true,
        List.append_nil, if_pos isWhole, List.dropWhile_cons, noDigit, if_neg Bool.false_ne_true]
      show (if (List.takeWhile _ (c :: rest ++ _)).isEmpty then none
        else readTail? _ _ (List.takeWhile _ (c :: rest ++ _)) _) = _
      rw [List.takeWhile_append_of_pos fraction, List.dropWhile_append_of_pos fraction,
        takeWhile_exponentChars, dropWhile_exponentChars, List.append_nil]
      exact last

theorem read?_signed {literal : NumberLiteral} (wellFormed : literal.WellFormed) :
    read? (signed literal.negative literal.chars) = some literal := by
  rw [← readUnsigned?_chars wellFormed]
  cases literal.negative with
  | true => rfl
  | false =>
      show read? literal.chars = readUnsigned? false literal.chars
      rw [read?]
      intro rest sameAsMinus
      have ⟨isWhole, whole, _, _⟩ := wellFormed
      rw [chars] at sameAsMinus
      cases leading : literal.whole with
      | nil =>
          rw [leading] at isWhole
          cases isWhole
      | cons c others =>
          rw [leading, List.cons_append] at sameAsMinus
          obtain ⟨rfl, _⟩ := List.cons.inj sameAsMinus
          have digit := whole '-' (leading ▸ List.mem_cons_self)
          cases digit

end NumberLiteral

theorem eq_of_readTail? {negative : Bool} {whole fraction tail : List Char}
    {literal : NumberLiteral} (read : readTail? negative whole fraction tail = some literal) :
    literal.negative = negative ∧ literal.whole = whole ∧ literal.fraction = fraction ∧
      (literal.exponent = none → tail = []) := by
  cases tail with
  | nil =>
      cases read
      exact ⟨rfl, rfl, rfl, fun _ => rfl⟩
  | cons c rest =>
      unfold readTail? at read
      dsimp only at read
      split_ifs at read
      obtain ⟨exponent, _, rfl⟩ := Option.map_eq_some_iff.mp read
      exact ⟨rfl, rfl, rfl, nofun⟩

/-- A literal without fraction and exponent is its digits. -/
theorem eq_of_readUnsigned? {negative : Bool} {cs : List Char} {literal : NumberLiteral}
    (read : readUnsigned? negative cs = some literal) (fraction : literal.fraction = [])
    (exponent : literal.exponent = none) :
    literal.negative = negative ∧ literal.whole = cs ∧ Decimal.digits (Decimal.value cs) = cs := by
  have split : cs.takeWhile Char.isDigit ++ cs.dropWhile Char.isDigit = cs :=
    List.takeWhile_append_dropWhile
  have each : ∀ c ∈ cs.takeWhile Char.isDigit, c.isDigit = true :=
    fun c member => List.mem_takeWhile_imp member
  unfold readUnsigned? at read
  extract_lets whole at read
  split_ifs at read with isWhole
  split at read
  · extract_lets places at read
    split_ifs at read with empty
    have ⟨_, _, same, _⟩ := eq_of_readTail? read
    rw [← same, fraction] at empty
    exact absurd rfl empty
  · have ⟨sign, same, _, tail⟩ := eq_of_readTail? read
    have all : whole = cs := by
      rw [tail exponent, List.append_nil] at split
      exact split
    rw [all] at isWhole same
    exact ⟨sign, same, digits_value_of_isWholePart isWhole (all ▸ each)⟩

end Json
end SchemaCompiler
