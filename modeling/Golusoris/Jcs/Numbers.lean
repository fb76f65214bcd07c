import Golusoris.Jcs.Serialize

/-!
# Numbers that are written and read again

The two layouts of a number, with and without an exponent, and the rewriting of
a negative exponent all write the decimal that the formatter chose. So a number
parses back if the decimal does.
-/

namespace Golusoris.Jcs

open List
open Lib

/-- The decimal that the digits stand for. -/
def Shortest.value (shortest : Shortest) : ℚ :=
  digitsValue (shortest.digits.map digitByte) *
    (10 : ℚ) ^ (shortest.point - shortest.digits.length)

theorem foldl_digits (digits : Bytes) (value : Nat) :
    digits.foldl (fun value digit => 10 * value + (digit.toNat - 0x30)) value =
      value * 10 ^ digits.length + digitsValue digits := by
  induction digits generalizing value with
  | nil => simp [digitsValue]
  | cons digit digits ih =>
    rw [digitsValue, foldl_cons, ih, foldl_cons, ih, length_cons, pow_succ]
    ring

theorem digitsValue_append (left right : Bytes) :
    digitsValue (left ++ right) = digitsValue left * 10 ^ right.length + digitsValue right := by
  rw [digitsValue, foldl_append, foldl_digits]
  rfl

theorem digitsValue_zeros (count : Nat) : digitsValue (List.replicate count 0x30) = 0 := by
  induction count with
  | zero => rfl
  | succ count ih =>
    rw [replicate_succ, ← singleton_append, digitsValue_append, ih]
    simp [digitsValue]

theorem isDigit_digitByte (digit : Fin 10) : isDigit (digitByte digit) := by
  revert digit
  decide

theorem isDigit_natDigit (value : Nat) : isDigit (natDigit value) := by
  have small : value % 10 < 10 := Nat.mod_lt _ (by decide)
  rw [isDigit_iff, natDigit, UInt8.toNat_ofNat']
  omega

theorem toNat_natDigit (value : Nat) : (natDigit value).toNat - 0x30 = value % 10 := by
  have small : value % 10 < 10 := Nat.mod_lt _ (by decide)
  rw [natDigit, UInt8.toNat_ofNat']
  omega

theorem isDigit_map_digitByte (digits : List (Fin 10)) :
    ∀ byte ∈ digits.map digitByte, isDigit byte := by
  intro byte found
  obtain ⟨digit, -, rfl⟩ := mem_map.mp found
  exact isDigit_digitByte digit

theorem isDigit_zeros (count : Nat) : ∀ byte ∈ List.replicate count (0x30 : UInt8), isDigit byte := by
  intro byte found
  rw [eq_of_mem_replicate found]
  rfl

/-- A numeral in its parts; the fraction has its point only if it has digits. -/
def numeral (negative : Bool) (whole fraction exponent : Bytes) : Bytes :=
  (if negative then [0x2D] else []) ++
    (whole ++ ((if fraction = [] then [] else 0x2E :: fraction) ++ exponent))

/-- The exponent of a numeral: a mark, a sign and digits, or nothing. -/
inductive ExponentText : Bytes → Int → Prop where
  | none : ExponentText [] 0
  | plus {digits : Bytes} (some : Digits digits) :
      ExponentText (0x65 :: 0x2B :: digits) (digitsValue digits)
  | minus {digits : Bytes} (some : Digits digits) :
      ExponentText (0x65 :: 0x2D :: digits) (-digitsValue digits)

theorem ExponentText.read {exponent : Bytes} {value : Int} (written : ExponentText exponent value) :
    readExponent exponent = value := by
  cases written with
  | none => rfl
  | @plus digits some =>
    have taken := (takeWhile_digits some.2 stop_nil.1).1
    rw [append_nil] at taken
    change (digitsValue (digits.takeWhile isDigit) : Int) = _
    rw [taken]
  | @minus digits some =>
    have taken := (takeWhile_digits some.2 stop_nil.1).1
    rw [append_nil] at taken
    change -(digitsValue (digits.takeWhile isDigit) : Int) = _
    rw [taken]

/-- An exponent starts with neither a digit nor a point. -/
theorem ExponentText.stops {exponent : Bytes} {value : Int} (written : ExponentText exponent value) :
    isDigit (peek exponent) = false ∧ peek exponent ≠ 0x2E := by
  cases written with
  | none => exact ⟨rfl, by decide⟩
  | plus _ | minus _ => exact ⟨rfl, show (0x65 : UInt8) ≠ 0x2E by decide⟩

variable (negative : Bool)

section

variable {whole fraction exponent : Bytes} {value : Int}

theorem splitSign_numeral (wholes : Digits whole) :
    splitSign (numeral negative whole fraction exponent) =
      (negative, whole ++ ((if fraction = [] then [] else 0x2E :: fraction) ++ exponent)) := by
  cases negative with
  | true => rfl
  | false =>
    obtain ⟨nonempty, digits⟩ := wholes
    obtain ⟨first, more, rfl⟩ := exists_cons_of_ne_nil nonempty
    rw [numeral, if_neg Bool.false_ne_true, nil_append, cons_append, splitSign.eq_def]
    split
    · rename_i same
      obtain ⟨rfl, -⟩ := List.cons.inj same
      exact absurd (digits 0x2D mem_cons_self) (by decide)
    · rfl

theorem splitFraction_numeral (fractions : ∀ byte ∈ fraction, isDigit byte)
    (written : ExponentText exponent value) :
    splitFraction ((if fraction = [] then [] else 0x2E :: fraction) ++ exponent) =
      (fraction, exponent) := by
  obtain ⟨stops, pointless⟩ := written.stops
  split_ifs with integral
  · subst integral
    rw [nil_append, splitFraction.eq_def]
    split
    · exact absurd rfl pointless
    · rfl
  · obtain ⟨taken, dropped⟩ := takeWhile_digits fractions stops
    exact Prod.ext taken dropped

theorem splitDecimal_numeral (wholes : Digits whole) (fractions : ∀ byte ∈ fraction, isDigit byte)
    (written : ExponentText exponent value) :
    splitDecimal (numeral negative whole fraction exponent) = ⟨negative, whole, fraction, value⟩ := by
  have stops : isDigit (peek ((if fraction = [] then [] else 0x2E :: fraction) ++ exponent)) =
      false := by
    split_ifs with integral
    · exact written.stops.1
    · rfl
  obtain ⟨taken, dropped⟩ := takeWhile_digits wholes.2 stops
  rw [splitDecimal, splitSign_numeral negative wholes]
  dsimp only
  rw [dropped, splitFraction_numeral fractions written, taken, written.read]

theorem readDecimal_numeral (wholes : Digits whole) (fractions : ∀ byte ∈ fraction, isDigit byte)
    (written : ExponentText exponent value) :
    readDecimal (numeral negative whole fraction exponent) =
      (if negative then -1 else 1) * digitsValue (whole ++ fraction) *
        (10 : ℚ) ^ (value - fraction.length) := by
  rw [readDecimal, splitDecimal_numeral negative wholes fractions written]
  rfl

theorem numberText_numeral (wholes : whole = [0x30] ∨ (Digits whole ∧ whole.head? ≠ some 0x30))
    (fractions : ∀ byte ∈ fraction, isDigit byte) (written : ExponentText exponent value) :
    NumberText (numeral negative whole fraction exponent) := by
  refine ⟨_, whole, _, exponent, rfl, ?_, wholes, ?_, ?_⟩
  · cases negative with
    | true => exact Or.inr rfl
    | false => exact Or.inl rfl
  · split_ifs with integral
    · exact Or.inl rfl
    · exact Or.inr ⟨fraction, rfl, integral, fractions⟩
  · cases written with
    | none => exact Or.inl rfl
    | @plus digits some =>
      exact Or.inr ⟨0x65, [0x2B], digits, rfl, Or.inl rfl, Or.inr (Or.inl rfl), some⟩
    | @minus digits some =>
      exact Or.inr ⟨0x65, [0x2D], digits, rfl, Or.inl rfl, Or.inr (Or.inr rfl), some⟩

end

variable (shortest : Shortest)

theorem Shortest.exists_cons :
    ∃ first rest, shortest.digits = first :: rest ∧ digitByte first ≠ 0x30 := by
  obtain ⟨first, rest, digits, nonzero⟩ := shortest.leading
  have zero : ∀ digit, digitByte digit = 0x30 → digit = 0 := by decide
  exact ⟨first, rest, digits, fun same => nonzero (zero first same)⟩

variable (front : Bytes)

theorem trimExponent_pair (sign tens ones : UInt8) :
    trimExponent (front ++ [0x65, sign, tens, ones]) =
      if sign = 0x2D ∧ tens = 0x30 then front ++ [0x65, 0x2D, ones]
      else front ++ [0x65, sign, tens, ones] := by
  have reversed : (front ++ [0x65, sign, tens, ones]).reverse =
      ones :: tens :: sign :: 0x65 :: front.reverse := by simp
  rw [trimExponent, reversed]
  split
  · rename_i same
    simp only [List.cons.injEq] at same
    obtain ⟨rfl, rfl, rfl, -, rfl⟩ := same
    simp
  · rename_i differs
    rw [if_neg]
    rintro ⟨rfl, rfl⟩
    exact differs _ _ rfl

theorem trimExponent_triple {sign hundreds tens ones : UInt8} (digit : hundreds ≠ 0x2D) :
    trimExponent (front ++ [0x65, sign, hundreds, tens, ones]) =
      front ++ [0x65, sign, hundreds, tens, ones] := by
  have reversed : (front ++ [0x65, sign, hundreds, tens, ones]).reverse =
      ones :: tens :: hundreds :: sign :: 0x65 :: front.reverse := by simp
  rw [trimExponent, reversed]
  split
  · rename_i same
    simp only [List.cons.injEq] at same
    exact absurd same.2.2.1 digit
  · rfl

/-- Digits after a sign are an exponent. -/
theorem exponentText_signed {exponent : Int} {digits : Bytes} (some : Digits digits)
    (size : digitsValue digits = exponent.natAbs) :
    ExponentText (0x65 :: (if exponent < 0 then 0x2D else 0x2B) :: digits) exponent := by
  by_cases negative : exponent < 0
  · have same : exponent = -(digitsValue digits : Int) := by omega
    rw [if_pos negative, same]
    exact .minus some
  · have same : exponent = (digitsValue digits : Int) := by omega
    rw [if_neg negative, same]
    exact .plus some

theorem digits_natDigit {values : List Nat} (some : values ≠ []) :
    Digits (values.map natDigit) := by
  refine ⟨by simpa using some, fun byte found => ?_⟩
  obtain ⟨value, -, rfl⟩ := mem_map.mp found
  exact isDigit_natDigit value

/-- The exponent that is left after the rewriting. -/
theorem trimExponent_fmtE (exponent : Int) (bounded : exponent.natAbs < 1000) :
    ∃ text, ExponentText text exponent ∧
      trimExponent (front ++ ([0x65, if exponent < 0 then 0x2D else 0x2B] ++
        if exponent.natAbs < 10 then [0x30, natDigit exponent.natAbs]
        else if exponent.natAbs < 100 then
          [natDigit (exponent.natAbs / 10), natDigit exponent.natAbs]
        else [natDigit (exponent.natAbs / 100), natDigit (exponent.natAbs / 10),
          natDigit exponent.natAbs])) = front ++ text := by
  generalize size : exponent.natAbs = value at bounded
  have value_eq (values : List Nat) (some : values ≠ [])
      (same : digitsValue (values.map natDigit) = value) :
      ExponentText (0x65 :: (if exponent < 0 then 0x2D else 0x2B) :: values.map natDigit) exponent :=
    exponentText_signed (digits_natDigit some) (same.trans size.symm)
  generalize (if exponent < 0 then (0x2D : UInt8) else 0x2B) = sign at value_eq ⊢
  split_ifs with small medium
  · -- One digit has a zero before it, which goes if the exponent is negative.
    rw [cons_append, singleton_append, trimExponent_pair]
    split_ifs with rewritten
    · refine ⟨_, ?_, rfl⟩
      have written := value_eq [value] (by simp) (by
        simp [digitsValue, toNat_natDigit]
        omega)
      rwa [rewritten.1] at written
    · refine ⟨_, ?_, rfl⟩
      exact value_eq [0, value] (by simp) (by
        simp [digitsValue, toNat_natDigit]
        omega)
  · rw [cons_append, singleton_append, trimExponent_pair, if_neg]
    · refine ⟨_, ?_, rfl⟩
      exact value_eq [value / 10, value] (by simp) (by
        simp [digitsValue, toNat_natDigit]
        omega)
    · rintro ⟨-, zero⟩
      have tens := toNat_natDigit (value / 10)
      rw [zero] at tens
      simp at tens
      omega
  · have digit : natDigit (value / 100) ≠ 0x2D := by
      intro same
      have digit := isDigit_natDigit (value / 100)
      rw [same] at digit
      exact absurd digit (by decide)
    rw [cons_append, singleton_append, trimExponent_triple front digit]
    refine ⟨_, ?_, rfl⟩
    exact value_eq [value / 100, value / 10, value] (by simp) (by
      simp [digitsValue, toNat_natDigit]
      omega)

/-- A text that is a number and has this decimal value. -/
def Writes (text : Bytes) (value : ℚ) : Prop := NumberText text ∧ readDecimal text = value

/-- The sign that is written before the digits. -/
def signText (negative : Bool) : Bytes := if negative then [0x2D] else []

theorem writes_fmtE :
    Writes (trimExponent (signText negative ++ fmtE shortest))
      ((if negative then -1 else 1) * shortest.value) := by
  obtain ⟨first, rest, digits, nonzero⟩ := shortest.exists_cons
  have bounded := shortest.bounded
  obtain ⟨exponent, written, trimmed⟩ := trimExponent_fmtE
    (signText negative ++ (digitByte first :: if rest = [] then [] else 0x2E :: rest.map digitByte))
    (shortest.point - 1) (by omega)
  have layout : trimExponent (signText negative ++ fmtE shortest) =
      numeral negative [digitByte first] (rest.map digitByte) exponent := by
    have whole : numeral negative [digitByte first] (rest.map digitByte) exponent =
        signText negative ++ (digitByte first ::
          if rest = [] then [] else 0x2E :: rest.map digitByte) ++ exponent := by
      cases rest <;> simp [numeral, signText]
    rw [whole, ← trimmed]
    congr 1
    cases rest <;> simp [fmtE, digits]
  have wholes : Digits [digitByte first] := by
    refine ⟨cons_ne_nil _ _, fun byte found => ?_⟩
    rw [mem_singleton.mp found]
    exact isDigit_digitByte first
  have fractions := isDigit_map_digitByte rest
  rw [layout]
  refine ⟨numberText_numeral negative (Or.inr ⟨wholes, fun same => nonzero (Option.some.inj same)⟩)
    fractions written, ?_⟩
  rw [readDecimal_numeral negative wholes fractions written, Shortest.value, digits, mul_assoc,
    length_map, map_cons, singleton_append, length_cons]
  congr 3
  push_cast
  ring

/-- A number without an exponent, from its digits before and after the point. -/
theorem writes_plain {whole : Bytes} (fraction : Bytes)
    (wholes : whole = [0x30] ∨ (Digits whole ∧ whole.head? ≠ some 0x30))
    (fractions : ∀ byte ∈ fraction, isDigit byte) :
    Writes (numeral negative whole fraction []) ((if negative then -1 else 1) *
      (digitsValue (whole ++ fraction) * (10 : ℚ) ^ (-(fraction.length : Int)))) := by
  refine ⟨numberText_numeral negative wholes fractions .none, ?_⟩
  have digits : Digits whole := by
    rcases wholes with rfl | ⟨digits, -⟩
    · exact ⟨cons_ne_nil _ _, isDigit_zeros 1⟩
    · exact digits
  rw [readDecimal_numeral negative digits fractions .none, zero_sub, mul_assoc]

theorem fmtF_nonpositive {shortest : Shortest} (small : shortest.point ≤ 0) (negative : Bool) :
    signText negative ++ fmtF shortest = numeral negative [0x30]
      (List.replicate (-shortest.point).toNat 0x30 ++ shortest.digits.map digitByte) [] := by
  obtain ⟨first, rest, digits, -⟩ := shortest.exists_cons
  have zero : shortest.point.toNat = 0 := by omega
  have below : shortest.point < (shortest.digits.map digitByte).length := by
    rw [digits, length_map, length_cons]
    omega
  have some : List.replicate (-shortest.point).toNat 0x30 ++ shortest.digits.map digitByte ≠ [] := by
    simp [digits]
  rw [fmtF, numeral, if_neg some, signText]
  simp only [if_neg (Int.not_lt.mpr small), if_pos below, zero, drop_zero, append_nil]

theorem fmtF_inside {shortest : Shortest} (positive : 0 < shortest.point)
    (below : shortest.point < shortest.digits.length) (negative : Bool) :
    signText negative ++ fmtF shortest = numeral negative
      ((shortest.digits.map digitByte).take shortest.point.toNat)
      ((shortest.digits.map digitByte).drop shortest.point.toNat) [] := by
  have count : (shortest.digits.map digitByte).length = shortest.digits.length := length_map _
  have below' : shortest.point < (shortest.digits.map digitByte).length := by rwa [count]
  have some : (shortest.digits.map digitByte).drop shortest.point.toNat ≠ [] := by
    rw [ne_eq, drop_eq_nil_iff, count]
    omega
  have none : shortest.point.toNat - (shortest.digits.map digitByte).length = 0 := by
    rw [count]
    omega
  have zeros : (-shortest.point).toNat = 0 := by omega
  rw [fmtF, numeral, if_neg some, signText]
  simp only [if_pos positive, if_pos below', none, zeros, replicate_zero, append_nil, nil_append]

theorem fmtF_beyond {shortest : Shortest} (above : (shortest.digits.length : Int) ≤ shortest.point)
    (negative : Bool) :
    signText negative ++ fmtF shortest = numeral negative
      (shortest.digits.map digitByte ++
        List.replicate (shortest.point.toNat - shortest.digits.length) 0x30) [] [] := by
  obtain ⟨first, rest, digits, -⟩ := shortest.exists_cons
  have count : (shortest.digits.map digitByte).length = shortest.digits.length := length_map _
  have some : 0 < shortest.digits.length := by simp [digits]
  have positive : 0 < shortest.point := by omega
  have beyond : ¬shortest.point < shortest.digits.length := by omega
  have taken : (shortest.digits.map digitByte).take shortest.point.toNat =
      shortest.digits.map digitByte := by
    apply take_of_length_le
    rw [count]
    omega
  rw [fmtF, numeral, if_pos rfl, signText]
  simp only [if_pos positive, if_neg beyond, taken, count, append_nil]

theorem writes_fmtF :
    Writes (signText negative ++ fmtF shortest)
      ((if negative then -1 else 1) * shortest.value) := by
  obtain ⟨first, rest, digits, nonzero⟩ := shortest.exists_cons
  have all := isDigit_map_digitByte shortest.digits
  have count : (shortest.digits.map digitByte).length = shortest.digits.length := length_map _
  by_cases small : shortest.point ≤ 0
  · have zeros := isDigit_zeros (-shortest.point).toNat
    have written := writes_plain negative _ (Or.inl rfl) (forall_mem_append.mpr ⟨zeros, all⟩)
    rw [← fmtF_nonpositive small negative] at written
    have value : (digitsValue ([0x30] ++ (List.replicate (-shortest.point).toNat 0x30 ++
        shortest.digits.map digitByte)) : ℚ) * (10 : ℚ) ^ (-((List.replicate
          (-shortest.point).toNat (0x30 : UInt8) ++ shortest.digits.map digitByte).length : Int)) =
        shortest.value := by
      rw [← append_assoc, digitsValue_append, digitsValue_append, digitsValue_zeros,
        length_append, length_replicate, count, Shortest.value]
      have same : -(((-shortest.point).toNat + shortest.digits.length : Nat) : Int) =
          shortest.point - shortest.digits.length := by omega
      rw [same]
      simp [digitsValue]
    rwa [value] at written
  · by_cases below : shortest.point < shortest.digits.length
    · have leading : (shortest.digits.map digitByte).take shortest.point.toNat ≠ [] ∧
          ((shortest.digits.map digitByte).take shortest.point.toNat).head? ≠ some 0x30 := by
        have some : shortest.point.toNat = (shortest.point.toNat - 1) + 1 := by omega
        rw [some, digits, map_cons, take_succ_cons]
        exact ⟨cons_ne_nil _ _, fun same => nonzero (Option.some.inj same)⟩
      have written := writes_plain negative
        ((shortest.digits.map digitByte).drop shortest.point.toNat)
        (Or.inr ⟨⟨leading.1, fun byte found => all byte (mem_of_mem_take found)⟩, leading.2⟩)
        fun byte found => all byte (mem_of_mem_drop found)
      rw [← fmtF_inside (by omega) below negative, take_append_drop, length_drop, count] at written
      have same : -((shortest.digits.length - shortest.point.toNat : Nat) : Int) =
          shortest.point - shortest.digits.length := by omega
      rwa [same] at written
    · have leading : (shortest.digits.map digitByte ++
          List.replicate (shortest.point.toNat - shortest.digits.length) 0x30) ≠ [] ∧
          (shortest.digits.map digitByte ++ List.replicate
            (shortest.point.toNat - shortest.digits.length) 0x30).head? ≠ some 0x30 := by
        rw [digits, map_cons]
        exact ⟨cons_ne_nil _ _, fun same => nonzero (Option.some.inj same)⟩
      have written := writes_plain negative [] (Or.inr ⟨⟨leading.1,
        forall_mem_append.mpr ⟨all, isDigit_zeros _⟩⟩, leading.2⟩) (by simp)
      rw [← fmtF_beyond (by omega) negative, append_nil, digitsValue_append, digitsValue_zeros,
        length_replicate] at written
      have power : (10 : ℚ) ^ (shortest.point - shortest.digits.length) =
          (10 : ℚ) ^ (shortest.point.toNat - shortest.digits.length) := by
        have same : shortest.point - shortest.digits.length =
          ((shortest.point.toNat - shortest.digits.length : Nat) : Int) := by omega
        rw [same, zpow_natCast]
      rw [Shortest.value, power]
      simpa using written

theorem roundHalfEven_neg (value : ℚ) : roundHalfEven (-value) = -roundHalfEven value := by
  have floor_le := Int.floor_le value
  have lt_floor := Int.lt_floor_add_one value
  by_cases integral : value = ⌊value⌋
  · have negated : ⌊-value⌋ = -⌊value⌋ := by
      rw [Int.floor_eq_iff, Int.cast_neg]
      constructor <;> linarith
    have zero : value - ⌊value⌋ = 0 := by linarith
    have zero' : -value - ⌊-value⌋ = 0 := by
      rw [negated, Int.cast_neg]
      linarith
    simp only [roundHalfEven, zero, zero']
    norm_num [negated]
  · have above : (⌊value⌋ : ℚ) < value := lt_of_le_of_ne floor_le fun same => integral same.symm
    have negated : ⌊-value⌋ = -⌊value⌋ - 1 := by
      rw [Int.floor_eq_iff, Int.cast_sub, Int.cast_neg, Int.cast_one]
      constructor <;> linarith
    have excess : -value - ⌊-value⌋ = 1 - (value - ⌊value⌋) := by
      rw [negated, Int.cast_sub, Int.cast_neg, Int.cast_one]
      ring
    simp only [roundHalfEven, excess]
    rw [negated]
    generalize value - ⌊value⌋ = part
    split_ifs <;> first | omega | (exfalso; linarith)

theorem nearestDouble_neg (value : ℚ) : nearestDouble (-value) = -nearestDouble value := by
  rw [nearestDouble, nearestDouble, ulp, abs_neg, ← ulp, neg_div, roundHalfEven_neg, Int.cast_neg,
    neg_mul]

theorem toDouble_neg {value double : ℚ} (read : toDouble value = some double) :
    toDouble (-value) = some (-double) := by
  rw [toDouble] at read ⊢
  rw [abs_neg]
  split_ifs at read with large
  rw [if_neg large, nearestDouble_neg, Option.some.inj read]

/-- The digits chosen for the size of a number parse back to it. -/
def RoundTrips (shortest : Formatter) (value : ℚ) : Prop :=
  value ≠ 0 → toDouble (shortest |value|).value = some |value|

theorem appendNumber_zero (shortest : Formatter) : appendNumber shortest 0 = [0x30] := rfl

theorem writes_appendNumber (shortest : Formatter) {value : ℚ} (nonzero : value ≠ 0) :
    Writes (appendNumber shortest value)
      ((if value < 0 then -1 else 1) * (shortest |value|).value) := by
  have sign : (if value < 0 then [0x2D] else []) = signText (decide (value < 0)) := by
    simp [signText]
  have factor : (if value < 0 then (-1 : ℚ) else 1) = if decide (value < 0) then -1 else 1 := by
    simp
  rw [appendNumber, if_neg nonzero, sign, factor]
  dsimp only
  by_cases exponential : |value| < nearestDouble (1 / 10 ^ 6) ∨ nearestDouble (10 ^ 21) ≤ |value|
  · rw [if_pos exponential]
    exact writes_fmtE _ _
  · rw [if_neg exponential]
    exact writes_fmtF _ _

/-- A written number is one of the grammar and parses back. -/
theorem appendNumber_parses {shortest : Formatter} {value : ℚ} (trips : RoundTrips shortest value) :
    NumberText (appendNumber shortest value) ∧
      parseFloat (appendNumber shortest value) = some value := by
  by_cases zero : value = 0
  · subst zero
    rw [appendNumber_zero]
    refine ⟨⟨[], [0x30], [], [], rfl, Or.inl rfl, Or.inl rfl, Or.inl rfl, Or.inl rfl⟩, ?_⟩
    decide +kernel
  · obtain ⟨number, read⟩ := writes_appendNumber shortest zero
    refine ⟨number, ?_⟩
    have size := trips zero
    rw [parseFloat, read]
    by_cases negative : value < 0
    · rw [if_pos negative, neg_one_mul, toDouble_neg size, abs_of_neg negative, neg_neg]
    · rw [if_neg negative, one_mul, size, abs_of_nonneg (not_lt.mp negative)]

end Golusoris.Jcs
