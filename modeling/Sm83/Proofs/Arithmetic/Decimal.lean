import Sm83.Opcode.Step
import Sm83.Opcode.Table
import Sm83.Proofs.Arithmetic.Chains

/-!
# Decimal arithmetic

A byte of two decimal digits is added or taken away as if its digits were hexadecimal, and then
corrected. The correction comes out right because each digit is corrected exactly if it left its
range, so an operation with its correction is exact on the decimal numbers. Chained a byte at a
time, it adds and subtracts decimal numbers of any length.
-/

namespace Sm83

/-! ## Decimal bytes -/

/-- Both halves of the byte are decimal digits. -/
def IsDecimal (byte : UInt8) : Prop := byte.toNat / 16 < 10 ∧ byte.toNat % 16 < 10

instance (byte : UInt8) : Decidable (IsDecimal byte) :=
  inferInstanceAs (Decidable (_ ∧ _))

/-- The number that two decimal digits stand for. -/
def decimalByte (byte : UInt8) : Nat := 10 * (byte.toNat / 16) + byte.toNat % 16

/-- The number that bytes of decimal digits stand for, the lowest byte first. -/
def decimalNumber (bytes : List UInt8) : Nat := Nat.ofDigits 100 (bytes.map decimalByte)

/-- Every further byte weighs 100 times as much. -/
theorem decimalNumber_cons (byte : UInt8) (rest : List UInt8) :
    decimalNumber (byte :: rest) = decimalByte byte + 100 * decimalNumber rest := rfl

/-- Two decimal digits stand for a number below 100. -/
theorem decimalByte_lt {byte : UInt8} (decimal : IsDecimal byte) : decimalByte byte < 100 := by
  obtain ⟨upper, lower⟩ := decimal
  unfold decimalByte
  omega

/-- So many decimal bytes stand for a number below that power of 100. -/
theorem decimalNumber_lt {bytes : List UInt8} (decimal : ∀ byte ∈ bytes, IsDecimal byte) :
    decimalNumber bytes < 100 ^ bytes.length := by
  have digits : ∀ digit ∈ bytes.map decimalByte, digit < 100 := by
    intro digit listed
    obtain ⟨byte, member, rfl⟩ := List.mem_map.mp listed
    exact decimalByte_lt (decimal byte member)
  have bound := Nat.ofDigits_lt_base_pow_length (by decide) digits
  rwa [List.length_map] at bound

namespace Arithmetic

/-- What the correction adds or takes away, the upper digit first. -/
theorem toNat_correction (upper lower : Bool) :
    ((if upper then 0x60 else 0) + (if lower then 0x06 else 0) : UInt8).toNat =
      96 * upper.toNat + 6 * lower.toNat := by
  cases upper <;> cases lower <;> rfl

/-- After an addition a digit is corrected by six if it carried or is none. -/
theorem decimalAdjust_of_sum {byte : UInt8} {halfCarry carry lower upper : Bool}
    (lowerDue : halfCarry = true ∨ 9 < byte.toNat % 16 ↔ lower = true)
    (upperDue : carry = true ∨ 153 < byte.toNat ↔ upper = true) :
    (decimalAdjust byte false halfCarry carry).value.toNat =
        (byte.toNat + (96 * upper.toNat + 6 * lower.toNat)) % 256 ∧
      (decimalAdjust byte false halfCarry carry).carry = upper := by
  have lowerSame : (halfCarry || (!false && decide (9 < byte.toNat % 16))) = lower := by
    rw [Bool.eq_iff_iff, ← lowerDue]
    simp
  have upperSame : (carry || (!false && decide (0x99 < byte))) = upper := by
    have beyond : (0x99 : UInt8) < byte ↔ 153 < byte.toNat := UInt8.lt_iff_toNat_lt
    rw [Bool.eq_iff_iff, ← upperDue, ← beyond]
    simp
  simp only [decimalAdjust, lowerSame, upperSame, Bool.false_eq_true, if_false, and_true]
  rw [UInt8.toNat_add, toNat_correction]

/-- After a subtraction a digit is corrected by six if it borrowed. -/
theorem decimalAdjust_of_difference (byte : UInt8) (lower upper : Bool) :
    (decimalAdjust byte true lower upper).value.toNat =
        (byte.toNat + 256 - (96 * upper.toNat + 6 * lower.toNat)) % 256 ∧
      (decimalAdjust byte true lower upper).carry = upper := by
  simp only [decimalAdjust, Bool.not_true, Bool.false_and, Bool.or_false, if_true, and_true]
  rw [UInt8.toNat_sub, toNat_correction]
  have small : 96 * upper.toNat + 6 * lower.toNat ≤ 256 := by
    have upperBit := upper.toNat_le
    have lowerBit := lower.toNat_le
    omega
  omega

variable {left right : UInt8} (carry : Bool)

/-- A sum of decimal bytes that is corrected is decimal, and it is the sum of the numbers: a digit
is corrected exactly if it was to be ten or more. -/
theorem decimalAdjust_addCarry (leftDecimal : IsDecimal left) (rightDecimal : IsDecimal right) :
    let sum := addCarry left right carry
    let result := decimalAdjust sum.value false sum.halfCarry sum.carry
    IsDecimal result.value ∧
      decimalByte result.value + 100 * result.carry.toNat =
        decimalByte left + decimalByte right + carry.toNat := by
  intro sum result
  obtain ⟨leftUpper, leftLower⟩ := leftDecimal
  obtain ⟨rightUpper, rightLower⟩ := rightDecimal
  have bit := carry.toNat_le
  have value : sum.value.toNat = (left.toNat + right.toNat + carry.toNat) % 256 :=
    toNat_value_addCarry left right carry
  have half : sum.halfCarry = true ↔ 16 ≤ left.toNat % 16 + right.toNat % 16 + carry.toNat :=
    decide_eq_true_iff
  have full : sum.carry = true ↔ 256 ≤ left.toNat + right.toNat + carry.toNat :=
    decide_eq_true_iff
  obtain ⟨lower, lowerTen⟩ : ∃ lower : Bool,
      lower = true ↔ 10 ≤ left.toNat % 16 + right.toNat % 16 + carry.toNat :=
    ⟨decide _, decide_eq_true_iff⟩
  obtain ⟨upper, upperTen⟩ : ∃ upper : Bool,
      upper = true ↔ 100 ≤ decimalByte left + decimalByte right + carry.toNat :=
    ⟨decide _, decide_eq_true_iff⟩
  unfold IsDecimal decimalByte at *
  obtain ⟨corrected, out⟩ : result.value.toNat =
      (sum.value.toNat + (96 * upper.toNat + 6 * lower.toNat)) % 256 ∧ result.carry = upper :=
    decimalAdjust_of_sum (by rw [half, lowerTen]; omega) (by rw [full, upperTen]; omega)
  rw [corrected, out, value]
  cases upper <;> cases lower <;>
    simp only [Bool.false_eq_true, false_iff, true_iff, Bool.toNat_false, Bool.toNat_true]
      at lowerTen upperTen ⊢ <;>
    omega

/-- A difference of decimal bytes that is corrected is decimal, and it is the difference of the
numbers: the borrows of the hexadecimal digits are those of the decimal ones. -/
theorem decimalAdjust_subBorrow (leftDecimal : IsDecimal left) (rightDecimal : IsDecimal right) :
    let difference := subBorrow left right carry
    let result := decimalAdjust difference.value true difference.halfCarry difference.carry
    IsDecimal result.value ∧
      decimalByte result.value + decimalByte right + carry.toNat =
        decimalByte left + 100 * result.carry.toNat := by
  intro difference result
  obtain ⟨leftUpper, leftLower⟩ := leftDecimal
  obtain ⟨rightUpper, rightLower⟩ := rightDecimal
  have bit := carry.toNat_le
  have exact : difference.value.toNat + right.toNat + carry.toNat =
      left.toNat + 256 * difference.carry.toNat := subBorrow_exact left right carry
  have half : difference.halfCarry = true ↔
      left.toNat % 16 < right.toNat % 16 + carry.toNat := decide_eq_true_iff
  have full : difference.carry = true ↔ left.toNat < right.toNat + carry.toNat :=
    decide_eq_true_iff
  obtain ⟨corrected, out⟩ : result.value.toNat = (difference.value.toNat + 256 -
        (96 * difference.carry.toNat + 6 * difference.halfCarry.toNat)) % 256 ∧
      result.carry = difference.carry := decimalAdjust_of_difference _ _ _
  unfold IsDecimal decimalByte
  rw [corrected, out]
  cases upper : difference.carry <;> cases lower : difference.halfCarry <;>
    simp only [upper, lower, Bool.false_eq_true, false_iff, true_iff, Bool.toNat_false,
      Bool.toNat_true] at half full exact ⊢ <;>
    omega

end Arithmetic

/-! ## Chains -/

/-- With what came in, the operation and the correction behind it add a decimal byte to the
accumulator, or take it away if the sign is negative, and the carry flag tells exactly what did not
fit. -/
def ByteOp.IsDecimalExact (op : ByteOp) (sign : Int) : Prop :=
  ∀ (regs : RegisterFile) (byte : UInt8), IsDecimal regs.a → IsDecimal byte →
    let after := (regs.combine op byte).decimalAdjust
    IsDecimal after.a ∧ (decimalByte after.a : Int) = decimalByte regs.a +
      sign * (decimalByte byte + op.carryIn regs.f.c - 100 * after.f.c.toNat)

/-- Both additions are exact on decimal bytes. -/
theorem ByteOp.isDecimalExact_of_addition {op : ByteOp} (addition : op = .add ∨ op = .adc) :
    op.IsDecimalExact 1 := by
  intro regs byte leftDecimal rightDecimal after
  have adds : ∃ taken : Bool, op.carryIn regs.f.c = taken.toNat ∧
      let sum := Arithmetic.addCarry regs.a byte taken
      let result := Arithmetic.decimalAdjust sum.value false sum.halfCarry sum.carry
      after.a = result.value ∧ after.f.c = result.carry := by
    cases addition with
    | inl plain => subst op; exact ⟨false, rfl, rfl, rfl⟩
    | inr carrying => subst op; exact ⟨regs.f.c, rfl, rfl, rfl⟩
  obtain ⟨taken, came, value, left⟩ := adds
  obtain ⟨decimal, exact⟩ := Arithmetic.decimalAdjust_addCarry taken leftDecimal rightDecimal
  rw [came, value, left]
  exact ⟨decimal, by omega⟩

/-- Both subtractions are exact on decimal bytes. -/
theorem ByteOp.isDecimalExact_of_subtraction {op : ByteOp} (subtraction : op = .sub ∨ op = .sbc) :
    op.IsDecimalExact (-1) := by
  intro regs byte leftDecimal rightDecimal after
  have subtracts : ∃ taken : Bool, op.carryIn regs.f.c = taken.toNat ∧
      let difference := Arithmetic.subBorrow regs.a byte taken
      let result :=
        Arithmetic.decimalAdjust difference.value true difference.halfCarry difference.carry
      after.a = result.value ∧ after.f.c = result.carry := by
    cases subtraction with
    | inl plain => subst op; exact ⟨false, rfl, rfl, rfl⟩
    | inr borrowing => subst op; exact ⟨regs.f.c, rfl, rfl, rfl⟩
  obtain ⟨taken, came, value, left⟩ := subtracts
  obtain ⟨decimal, exact⟩ := Arithmetic.decimalAdjust_subBorrow taken leftDecimal rightDecimal
  rw [came, value, left]
  exact ⟨decimal, by omega⟩

namespace RegisterFile

/-- Work on two decimal numbers a byte at a time, from the lowest on: the accumulator is given each
byte of the left number in turn, combined with the byte of the right number beside it, by one
operation for the lowest bytes and by another from there on, and corrected. Gives the registers
before each correction, and those at the end. -/
def decimalChain (first further : ByteOp) (regs : RegisterFile) :
    List UInt8 → List UInt8 → List RegisterFile × RegisterFile
  | left :: lefts, right :: rights =>
    let combined := { regs with a := left }.combine first right
    let rest := combined.decimalAdjust.decimalChain further further lefts rights
    (combined :: rest.1, rest.2)
  | _, _ => ([], regs)

/-- The bytes that the accumulator holds behind each correction. -/
def corrected (steps : List RegisterFile) : List UInt8 := steps.map (·.decimalAdjust.a)

/-- What a chain gives is decimal, and exactly the left number with the right number and a carry
added, or taken away if the sign is negative: the carry flag at the end counts as much as there are
decimal numbers of so many bytes. -/
structure IsDecimalTotal (sign : Int) (lefts rights : List UInt8) (carry : Nat)
    (result : List RegisterFile × RegisterFile) : Prop where
  length : (corrected result.1).length = lefts.length
  decimal : ∀ byte ∈ corrected result.1, IsDecimal byte
  exact : (decimalNumber (corrected result.1) : Int) = decimalNumber lefts +
    sign * (decimalNumber rights + carry - 100 ^ lefts.length * result.2.f.c.toNat)

variable {sign : Int} {first further : ByteOp} {left right : UInt8} {lefts rights : List UInt8}

/-- A step before an exact chain that takes its carry in makes another exact chain. -/
theorem IsDecimalTotal.cons (exact : first.IsDecimalExact sign) (regs : RegisterFile)
    (leftDecimal : IsDecimal left) (rightDecimal : IsDecimal right)
    (total : let after := ({ regs with a := left }.combine first right).decimalAdjust
      IsDecimalTotal sign lefts rights after.f.c.toNat
        (after.decimalChain further further lefts rights)) :
    IsDecimalTotal sign (left :: lefts) (right :: rights) (first.carryIn regs.f.c)
      (regs.decimalChain first further (left :: lefts) (right :: rights)) := by
  obtain ⟨decimal, step⟩ := exact { regs with a := left } right leftDecimal rightDecimal
  obtain ⟨length, others, onward⟩ := total
  refine ⟨congrArg (· + 1) length, ?_, ?_⟩
  · intro byte listed
    cases List.mem_cons.mp listed with
    | inl same => exact same ▸ decimal
    | inr later => exact others byte later
  · simp only [decimalChain, corrected, List.map_cons, decimalNumber_cons, List.length_cons,
      pow_succ] at onward ⊢
    push_cast
    rw [step, onward]
    ring

/-- With an operation that takes the carry flag in at each byte, a chain is exact. -/
theorem isDecimalTotal_of_carrying (exact : further.IsDecimalExact sign)
    (carries : ∀ carry, further.carryIn carry = carry.toNat) (regs : RegisterFile)
    (same : lefts.length = rights.length) (leftsDecimal : ∀ byte ∈ lefts, IsDecimal byte)
    (rightsDecimal : ∀ byte ∈ rights, IsDecimal byte) :
    IsDecimalTotal sign lefts rights regs.f.c.toNat
      (regs.decimalChain further further lefts rights) := by
  induction lefts generalizing regs rights with
  | nil =>
    have empty : rights = [] := List.length_eq_zero_iff.mp same.symm
    subst empty
    refine ⟨rfl, fun byte impossible => absurd impossible List.not_mem_nil, ?_⟩
    simp [decimalChain, corrected, decimalNumber]
  | cons left lefts ih =>
    cases rights with
    | nil => cases same
    | cons right rights =>
      obtain ⟨leftDecimal, leftsDecimal⟩ := List.forall_mem_cons.mp leftsDecimal
      obtain ⟨rightDecimal, rightsDecimal⟩ := List.forall_mem_cons.mp rightsDecimal
      rw [← carries]
      exact .cons exact regs leftDecimal rightDecimal
        (ih _ (Nat.succ.inj same) leftsDecimal rightsDecimal)

/-- A chain of at least a byte that takes the carry flag in from the second byte on is exact. -/
theorem isDecimalTotal_chain (starts : first.IsDecimalExact sign)
    (continues : further.IsDecimalExact sign)
    (carries : ∀ carry, further.carryIn carry = carry.toNat) (regs : RegisterFile)
    (same : lefts.length = rights.length) (nonempty : 0 < lefts.length)
    (leftsDecimal : ∀ byte ∈ lefts, IsDecimal byte)
    (rightsDecimal : ∀ byte ∈ rights, IsDecimal byte) :
    IsDecimalTotal sign lefts rights (first.carryIn regs.f.c)
      (regs.decimalChain first further lefts rights) := by
  cases lefts with
  | nil => cases nonempty
  | cons left lefts =>
    cases rights with
    | nil => cases same
    | cons right rights =>
      obtain ⟨leftDecimal, leftsDecimal⟩ := List.forall_mem_cons.mp leftsDecimal
      obtain ⟨rightDecimal, rightsDecimal⟩ := List.forall_mem_cons.mp rightsDecimal
      have onward := isDecimalTotal_of_carrying continues carries
        ({ regs with a := left }.combine first right).decimalAdjust (Nat.succ.inj same)
        leftsDecimal rightsDecimal
      exact .cons starts regs leftDecimal rightDecimal onward

/-- Chained decimal addition gives the sum, less the number that the carry flag stands for at the
end. -/
theorem chained_decimal_sum (regs : RegisterFile) (same : lefts.length = rights.length)
    (nonempty : 0 < lefts.length) (leftsDecimal : ∀ byte ∈ lefts, IsDecimal byte)
    (rightsDecimal : ∀ byte ∈ rights, IsDecimal byte) :
    let sum := regs.decimalChain .add .adc lefts rights
    IsDecimalTotal 1 lefts rights 0 sum ∧
      decimalNumber (corrected sum.1) + 100 ^ lefts.length * sum.2.f.c.toNat =
        decimalNumber lefts + decimalNumber rights := by
  intro sum
  have starts : ByteOp.add.IsDecimalExact 1 := ByteOp.isDecimalExact_of_addition (.inl rfl)
  have continues : ByteOp.adc.IsDecimalExact 1 := ByteOp.isDecimalExact_of_addition (.inr rfl)
  have total : IsDecimalTotal 1 lefts rights 0 sum :=
    isDecimalTotal_chain starts continues (fun _ => rfl) regs same nonempty leftsDecimal
      rightsDecimal
  refine ⟨total, ?_⟩
  zify
  rw [total.exact]
  push_cast
  ring

/-- Chained decimal subtraction gives the difference, with the number borrowed that the carry flag
stands for at the end. -/
theorem chained_decimal_difference (regs : RegisterFile) (same : lefts.length = rights.length)
    (nonempty : 0 < lefts.length) (leftsDecimal : ∀ byte ∈ lefts, IsDecimal byte)
    (rightsDecimal : ∀ byte ∈ rights, IsDecimal byte) :
    let difference := regs.decimalChain .sub .sbc lefts rights
    IsDecimalTotal (-1) lefts rights 0 difference ∧
      decimalNumber (corrected difference.1) + decimalNumber rights =
        decimalNumber lefts + 100 ^ lefts.length * difference.2.f.c.toNat := by
  intro difference
  have starts : ByteOp.sub.IsDecimalExact (-1) := ByteOp.isDecimalExact_of_subtraction (.inl rfl)
  have continues : ByteOp.sbc.IsDecimalExact (-1) :=
    ByteOp.isDecimalExact_of_subtraction (.inr rfl)
  have total : IsDecimalTotal (-1) lefts rights 0 difference :=
    isDecimalTotal_chain starts continues (fun _ => rfl) regs same nonempty leftsDecimal
      rightsDecimal
  refine ⟨total, ?_⟩
  zify
  rw [total.exact]
  push_cast
  ring

/-- What a chain gives is below the power of 100 that bounds the left number. -/
theorem IsDecimalTotal.number_lt {carry : Nat} {result : List RegisterFile × RegisterFile}
    (total : IsDecimalTotal sign lefts rights carry result) :
    decimalNumber (corrected result.1) < 100 ^ lefts.length := by
  have bound := decimalNumber_lt total.decimal
  rwa [total.length] at bound

/-- All operations of a chain that tells the same in the subtraction flag leave it so. -/
theorem subtracted_of_mem_decimalChain {subtracted : Bool}
    (starts : ∀ a byte carry, (first.apply a byte carry).2.n = subtracted)
    (continues : ∀ a byte carry, (further.apply a byte carry).2.n = subtracted)
    {regs : RegisterFile} {combined : RegisterFile}
    (listed : combined ∈ (regs.decimalChain first further lefts rights).1) :
    combined.f.n = subtracted := by
  induction lefts generalizing regs first rights with
  | nil => cases listed
  | cons left lefts ih =>
    cases rights with
    | nil => cases listed
    | cons right rights =>
      cases List.mem_cons.mp listed with
      | inl here => exact here ▸ starts left right regs.f.c
      | inr later => exact ih continues later

/-- The instruction that corrects the accumulator does so in its only cycle, over any memory. -/
theorem step_daa (activation : Activation) (regs : RegisterFile)
    (due : activation.violation 1 1 = none) :
    (OpcodeTable.standard.lookup ⟨0x27, false⟩).step 1 activation regs =
      .done ⟨.ok .retired, Activation.after 1 .retired {}, regs.decimalAdjust⟩ := by
  have decoded : OpcodeTable.standard.lookup ⟨0x27, false⟩ = ⟨⟨0x27, false⟩, .daa⟩ :=
    OpcodeTable.lookup_standard_plain 0x27
  have last : (⟨⟨0x27, false⟩, .daa⟩ : Opcode).lastCycle = 1 := rfl
  rw [decoded, Opcode.step, last, due]
  rfl

/-- Corrected a byte at a time, addition and subtraction are those of decimal numbers of any length
modulo the power of 100 that bounds them. Every byte is decimal again, and the carry flag at the end
tells whether the sum reached the bound, or whether more was taken away than there was. A correction
tells whether the byte is zero, clears the half carry and keeps what the operation told of itself;
it is what the instruction does in its only cycle. -/
theorem adjusts_decimal (regs : RegisterFile) (same : lefts.length = rights.length)
    (nonempty : 0 < lefts.length) (leftsDecimal : ∀ byte ∈ lefts, IsDecimal byte)
    (rightsDecimal : ∀ byte ∈ rights, IsDecimal byte) :
    let span : Nat := 100 ^ lefts.length
    let sum := regs.decimalChain .add .adc lefts rights
    let difference := regs.decimalChain .sub .sbc lefts rights
    ((corrected sum.1).length = lefts.length ∧ (∀ byte ∈ corrected sum.1, IsDecimal byte) ∧
      decimalNumber (corrected sum.1) = (decimalNumber lefts + decimalNumber rights) % span ∧
      (sum.2.f.c = true ↔ span ≤ decimalNumber lefts + decimalNumber rights)) ∧
    ((corrected difference.1).length = lefts.length ∧
      (∀ byte ∈ corrected difference.1, IsDecimal byte) ∧
      (decimalNumber (corrected difference.1) : Int) =
        ((decimalNumber lefts : Int) - decimalNumber rights) % span ∧
      (difference.2.f.c = true ↔ decimalNumber lefts < decimalNumber rights)) ∧
    (∀ combined ∈ sum.1, combined.f.n = false) ∧
    (∀ combined ∈ difference.1, combined.f.n = true) ∧
    ∀ combined : RegisterFile,
      let after := combined.decimalAdjust
      (after.f.z = true ↔ after.a = 0) ∧ after.f.h = false ∧ after.f.n = combined.f.n ∧
        ∀ activation : Activation, activation.violation 1 1 = none →
          (OpcodeTable.standard.lookup ⟨0x27, false⟩).step 1 activation combined =
            .done ⟨.ok .retired, Activation.after 1 .retired {}, after⟩ := by
  intro span sum difference
  obtain ⟨sumTotal, sumExact⟩ := chained_decimal_sum regs same nonempty leftsDecimal rightsDecimal
  obtain ⟨differenceTotal, differenceExact⟩ :=
    chained_decimal_difference regs same nonempty leftsDecimal rightsDecimal
  refine ⟨⟨sumTotal.length, sumTotal.decimal, carry_of_exact sumTotal.number_lt sumExact⟩,
    ⟨differenceTotal.length, differenceTotal.decimal,
      borrow_of_exact differenceTotal.number_lt differenceExact⟩, ?_, ?_, ?_⟩
  · intro combined listed
    exact subtracted_of_mem_decimalChain (fun _ _ _ => rfl) (fun _ _ _ => rfl) listed
  · intro combined listed
    exact subtracted_of_mem_decimalChain (fun _ _ _ => rfl) (fun _ _ _ => rfl) listed
  · intro combined after
    exact ⟨beq_iff_eq, rfl, rfl, fun activation due => step_daa activation combined due⟩

/-- A decimal carry runs out of a number of two bytes, and none of its digits is borrowed from
beyond it. -/
theorem decimal_of_overflow :
    let lefts : List UInt8 := [0x45, 0x99]
    let rights : List UInt8 := [0x67, 0x00]
    let sum := ({} : RegisterFile).decimalChain .add .adc lefts rights
    let difference := ({} : RegisterFile).decimalChain .sub .sbc lefts rights
    (lefts.length = rights.length ∧ 0 < lefts.length ∧ (∀ byte ∈ lefts, IsDecimal byte) ∧
      ∀ byte ∈ rights, IsDecimal byte) ∧
      corrected sum.1 = [0x12, 0x00] ∧ decimalNumber [0x12, 0x00] = (9945 + 67) % 10000 ∧
      sum.2.f.c = true ∧
      corrected difference.1 = [0x78, 0x98] ∧ difference.2.f.c = false := by
  intro lefts rights sum difference
  have leftsDecimal : ∀ byte ∈ lefts, IsDecimal byte := by simp [lefts, IsDecimal]
  have rightsDecimal : ∀ byte ∈ rights, IsDecimal byte := by simp [rights, IsDecimal]
  obtain ⟨⟨-, -, total, overflow⟩, ⟨-, -, -, borrow⟩, -⟩ :=
    adjusts_decimal {} (Eq.refl 2) (by decide) leftsDecimal rightsDecimal
  have bytes : corrected sum.1 = [0x12, 0x00] := by decide
  rw [bytes] at total
  have carry : sum.2.f.c = true := overflow.mpr (by decide)
  have unborrowed : difference.2.f.c = false := Bool.eq_false_iff.mpr (mt borrow.mp (by decide))
  exact ⟨⟨rfl, by decide, leftsDecimal, rightsDecimal⟩, bytes, total, carry, by decide, unborrowed⟩

end RegisterFile

end Sm83
