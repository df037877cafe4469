import Mathlib.Data.Nat.Digits.Defs
import Mathlib.Tactic.Ring
import Sm83.Proofs.Arithmetic.Bytes

/-!
# Chains of byte operations

Numbers of any length are added and subtracted a byte at a time: the accumulator takes the bytes of
one number in turn, and the carry flag hands on what one byte leaves to the next. What each step
contributes is exact over the integers, so what a whole chain comes to is exact, too, and a
difference undoes a sum.
-/

namespace Sm83

/-! ## Numbers in bytes -/

/-- The number that bytes stand for, the lowest byte first. -/
def number (bytes : List UInt8) : Nat := Nat.ofDigits 256 (bytes.map UInt8.toNat)

/-- No bytes stand for zero. -/
theorem number_nil : number [] = 0 := rfl

/-- Every further byte weighs 256 times as much. -/
theorem number_cons (byte : UInt8) (rest : List UInt8) :
    number (byte :: rest) = byte.toNat + 256 * number rest := rfl

/-- So many bytes stand for a number below that power of 256. -/
theorem number_lt (bytes : List UInt8) : number bytes < 256 ^ bytes.length := by
  have digits : ∀ digit ∈ bytes.map UInt8.toNat, digit < 256 := by
    intro digit listed
    obtain ⟨byte, -, same⟩ := List.mem_map.mp listed
    rw [← same]
    exact byte.toNat_lt
  have bound := Nat.ofDigits_lt_base_pow_length (by decide) digits
  rwa [List.length_map] at bound

/-- As many bytes stand for another number if they are others. -/
theorem eq_of_number_eq {lefts rights : List UInt8} (same : lefts.length = rights.length)
    (equal : number lefts = number rights) : lefts = rights := by
  induction lefts generalizing rights with
  | nil => exact (List.length_eq_zero_iff.mp same.symm).symm
  | cons left lefts ih =>
    cases rights with
    | nil => cases same
    | cons right rights =>
      have leftBound := left.toNat_lt
      have rightBound := right.toNat_lt
      rw [number_cons, number_cons] at equal
      have first : left = right := UInt8.toNat_inj.mp (by omega)
      have others : lefts = rights := ih (Nat.succ.inj same) (by omega)
      rw [first, others]

/-- What is left of a sum below a bound, and the carry that stands for the bound. -/
theorem carry_of_exact {result total span : Nat} {carry : Bool} (bound : result < span)
    (exact : result + span * carry.toNat = total) :
    result = total % span ∧ (carry = true ↔ span ≤ total) := by
  constructor
  · rw [← exact, Nat.add_mul_mod_self_left, Nat.mod_eq_of_lt bound]
  · cases carry with
    | false =>
      rw [Bool.toNat_false, Nat.mul_zero] at exact
      simp only [Bool.false_eq_true, false_iff]
      omega
    | true =>
      rw [Bool.toNat_true, Nat.mul_one] at exact
      simp only [true_iff]
      omega

/-- What is left of a difference below a bound, and the borrow that stands for the bound. -/
theorem borrow_of_exact {result left right span : Nat} {borrow : Bool} (bound : result < span)
    (exact : result + right = left + span * borrow.toNat) :
    (result : Int) = ((left : Int) - right) % span ∧ (borrow = true ↔ left < right) := by
  constructor
  · have difference : (left : Int) - right = result + span * -borrow.toNat := by
      have cast : (result : Int) + right = left + span * borrow.toNat := by exact_mod_cast exact
      rw [mul_neg]
      omega
    have positive : (0 : Int) ≤ result := Int.natCast_nonneg result
    rw [difference, Int.add_mul_emod_self_left,
      Int.emod_eq_of_lt positive (Int.ofNat_lt.mpr bound)]
  · cases borrow with
    | false =>
      rw [Bool.toNat_false, Nat.mul_zero] at exact
      simp only [Bool.false_eq_true, false_iff]
      omega
    | true =>
      rw [Bool.toNat_true, Nat.mul_one] at exact
      simp only [true_iff]
      omega

/-! ## Chains -/

/-- With what came in, the operation adds its byte to the accumulator, or takes it away if the sign
is negative, and the carry flag tells exactly what did not fit. -/
def ByteOp.IsExact (op : ByteOp) (sign : Int) : Prop :=
  ∀ (regs : RegisterFile) (byte : UInt8), ((regs.combine op byte).a.toNat : Int) = regs.a.toNat +
    sign * (byte.toNat + op.carryIn regs.f.c - 256 * (regs.combine op byte).f.c.toNat)

/-- Both additions are exact. -/
theorem ByteOp.isExact_of_addition {op : ByteOp} (addition : op = .add ∨ op = .adc) :
    op.IsExact 1 := by
  intro regs byte
  have adds : ∃ taken : Bool, op.carryIn regs.f.c = taken.toNat ∧
      (regs.combine op byte).a = (Arithmetic.addCarry regs.a byte taken).value ∧
      (regs.combine op byte).f.c = (Arithmetic.addCarry regs.a byte taken).carry := by
    cases addition with
    | inl plain => subst op; exact ⟨false, rfl, rfl, rfl⟩
    | inr carrying => subst op; exact ⟨regs.f.c, rfl, rfl, rfl⟩
  obtain ⟨taken, came, value, left⟩ := adds
  have exact := Arithmetic.addCarry_exact regs.a byte taken
  rw [came, value, left]
  omega

/-- Both subtractions are exact. -/
theorem ByteOp.isExact_of_subtraction {op : ByteOp} (subtraction : op = .sub ∨ op = .sbc) :
    op.IsExact (-1) := by
  intro regs byte
  have subtracts : ∃ taken : Bool, op.carryIn regs.f.c = taken.toNat ∧
      (regs.combine op byte).a = (Arithmetic.subBorrow regs.a byte taken).value ∧
      (regs.combine op byte).f.c = (Arithmetic.subBorrow regs.a byte taken).carry := by
    cases subtraction with
    | inl plain => subst op; exact ⟨false, rfl, rfl, rfl⟩
    | inr borrowing => subst op; exact ⟨regs.f.c, rfl, rfl, rfl⟩
  obtain ⟨taken, came, value, left⟩ := subtracts
  have exact := Arithmetic.subBorrow_exact regs.a byte taken
  rw [came, value, left]
  omega

namespace RegisterFile

/-- Work on two numbers a byte at a time, from the lowest on: the accumulator is given each byte of
the left number in turn and combined with the byte of the right number beside it, by one operation
for the lowest bytes and by another from there on. Gives what the accumulator held after each, and
the registers at the end. -/
def chain (first further : ByteOp) (regs : RegisterFile) :
    List UInt8 → List UInt8 → List UInt8 × RegisterFile
  | left :: lefts, right :: rights =>
    let after := { regs with a := left }.combine first right
    let rest := after.chain further further lefts rights
    (after.a :: rest.1, rest.2)
  | _, _ => ([], regs)

/-- What a chain gives is exactly the left number with the right number and a carry added, or taken
away if the sign is negative: the carry flag at the end counts as much as there are numbers of so
many bytes. -/
def IsTotal (sign : Int) (lefts rights : List UInt8) (carry : Nat)
    (result : List UInt8 × RegisterFile) : Prop :=
  (number result.1 : Int) = number lefts +
    sign * (number rights + carry - 256 ^ lefts.length * result.2.f.c.toNat)

variable {sign : Int} {first further : ByteOp} {lefts rights : List UInt8}

/-- A chain gives as many bytes as it is given. -/
theorem length_chain (regs : RegisterFile) (same : lefts.length = rights.length) :
    (regs.chain first further lefts rights).1.length = lefts.length := by
  induction lefts generalizing regs first rights with
  | nil => rfl
  | cons left lefts ih =>
    cases rights with
    | nil => cases same
    | cons right rights =>
      let after := { regs with a := left }.combine first right
      have others : (after.chain further further lefts rights).1.length = lefts.length :=
        ih after (Nat.succ.inj same)
      exact congrArg (· + 1) others

/-- A step before an exact chain that takes its carry in makes another exact chain. -/
theorem IsTotal.cons (exact : first.IsExact sign) (regs : RegisterFile) (left right : UInt8)
    (total : let after := { regs with a := left }.combine first right
      IsTotal sign lefts rights after.f.c.toNat (after.chain further further lefts rights)) :
    IsTotal sign (left :: lefts) (right :: rights) (first.carryIn regs.f.c)
      (regs.chain first further (left :: lefts) (right :: rights)) := by
  have step := exact { regs with a := left } right
  simp only [IsTotal] at total
  simp only [IsTotal, chain, number_cons, List.length_cons, pow_succ]
  push_cast
  rw [step, total]
  ring

/-- With an operation that takes the carry flag in at each byte, a chain is exact. -/
theorem isTotal_of_carrying (exact : further.IsExact sign)
    (carries : ∀ carry, further.carryIn carry = carry.toNat) (regs : RegisterFile)
    (same : lefts.length = rights.length) :
    IsTotal sign lefts rights regs.f.c.toNat (regs.chain further further lefts rights) := by
  induction lefts generalizing regs rights with
  | nil =>
    have empty : rights = [] := List.length_eq_zero_iff.mp same.symm
    subst empty
    simp only [IsTotal, chain, number_nil, List.length_nil, pow_zero]
    ring
  | cons left lefts ih =>
    cases rights with
    | nil => cases same
    | cons right rights =>
      rw [← carries]
      exact .cons exact regs left right (ih _ (Nat.succ.inj same))

/-- A chain of at least a byte that takes the carry flag in from the second byte on is exact. -/
theorem isTotal_chain (starts : first.IsExact sign) (continues : further.IsExact sign)
    (carries : ∀ carry, further.carryIn carry = carry.toNat) (regs : RegisterFile)
    (same : lefts.length = rights.length) (nonempty : 0 < lefts.length) :
    IsTotal sign lefts rights (first.carryIn regs.f.c) (regs.chain first further lefts rights) := by
  cases lefts with
  | nil => cases nonempty
  | cons left lefts =>
    cases rights with
    | nil => cases same
    | cons right rights =>
      have onward := isTotal_of_carrying continues carries
        ({ regs with a := left }.combine first right) (Nat.succ.inj same)
      exact .cons starts regs left right onward

/-- Chained addition gives the sum, less the number that the carry flag stands for at the end. -/
theorem chained_sum (regs : RegisterFile) (same : lefts.length = rights.length)
    (nonempty : 0 < lefts.length) :
    let sum := regs.chain .add .adc lefts rights
    number sum.1 + 256 ^ lefts.length * sum.2.f.c.toNat = number lefts + number rights := by
  intro sum
  have starts : ByteOp.add.IsExact 1 := ByteOp.isExact_of_addition (.inl rfl)
  have continues : ByteOp.adc.IsExact 1 := ByteOp.isExact_of_addition (.inr rfl)
  have total : IsTotal 1 lefts rights 0 sum :=
    isTotal_chain starts continues (fun _ => rfl) regs same nonempty
  simp only [IsTotal] at total
  zify
  rw [total]
  ring

/-- Chained subtraction gives the difference, with the number borrowed that the carry flag stands
for at the end. -/
theorem chained_difference (regs : RegisterFile) (same : lefts.length = rights.length)
    (nonempty : 0 < lefts.length) :
    let difference := regs.chain .sub .sbc lefts rights
    number difference.1 + number rights =
      number lefts + 256 ^ lefts.length * difference.2.f.c.toNat := by
  intro difference
  have starts : ByteOp.sub.IsExact (-1) := ByteOp.isExact_of_subtraction (.inl rfl)
  have continues : ByteOp.sbc.IsExact (-1) := ByteOp.isExact_of_subtraction (.inr rfl)
  have total : IsTotal (-1) lefts rights 0 difference :=
    isTotal_chain starts continues (fun _ => rfl) regs same nonempty
  simp only [IsTotal] at total
  zify
  rw [total]
  ring

/-- What a chain gives is below the power of 256 that bounds the left number. -/
theorem number_chain_lt (regs : RegisterFile) (same : lefts.length = rights.length) :
    number (regs.chain first further lefts rights).1 < 256 ^ lefts.length := by
  have bound := number_lt (regs.chain first further lefts rights).1
  rwa [length_chain regs same] at bound

/-- Taking away again what was added gives the left number back, with the carry flag that the
addition left. -/
theorem chained_back (regs others : RegisterFile) (same : lefts.length = rights.length)
    (nonempty : 0 < lefts.length) :
    let sum := regs.chain .add .adc lefts rights
    let back := others.chain .sub .sbc sum.1 rights
    back.1 = lefts ∧ back.2.f.c = sum.2.f.c := by
  intro sum back
  have sumLength : sum.1.length = lefts.length := length_chain regs same
  have sumSame : sum.1.length = rights.length := sumLength.trans same
  have forth : number sum.1 + 256 ^ lefts.length * sum.2.f.c.toNat =
      number lefts + number rights := chained_sum regs same nonempty
  have away : number back.1 + number rights =
      number sum.1 + 256 ^ lefts.length * back.2.f.c.toNat := by
    rw [← sumLength]
    exact chained_difference others sumSame (sumLength ▸ nonempty)
  have backBound : number back.1 < 256 ^ lefts.length := by
    rw [← sumLength]
    exact number_chain_lt others sumSame
  have leftBound := number_lt lefts
  have again : number back.1 = number lefts ∧ back.2.f.c = sum.2.f.c := by
    cases up : sum.2.f.c <;> cases down : back.2.f.c <;>
      simp only [up, down, Bool.toNat_false, Bool.toNat_true, Nat.mul_zero, Nat.mul_one]
        at forth away
    · exact ⟨by omega, rfl⟩
    · omega
    · omega
    · exact ⟨by omega, rfl⟩
  have backLength : back.1.length = lefts.length :=
    (length_chain others sumSame).trans sumLength
  exact ⟨eq_of_number_eq backLength again.1, again.2⟩

/-- Taken a byte at a time, addition and subtraction are those of numbers of any length modulo the
power of 256 that bounds them. The carry flag at the end tells whether the sum reached that bound,
or whether more was taken away than there was; and taking away again what was added gives the left
number back, with the carry flag that the addition left. -/
theorem chains_exactly (regs : RegisterFile) {lefts rights : List UInt8}
    (same : lefts.length = rights.length) (nonempty : 0 < lefts.length) :
    let span : Nat := 256 ^ lefts.length
    let sum := regs.chain .add .adc lefts rights
    let difference := regs.chain .sub .sbc lefts rights
    (sum.1.length = lefts.length ∧ number sum.1 = (number lefts + number rights) % span ∧
      (sum.2.f.c = true ↔ span ≤ number lefts + number rights)) ∧
    (difference.1.length = lefts.length ∧
      (number difference.1 : Int) = ((number lefts : Int) - number rights) % span ∧
      (difference.2.f.c = true ↔ number lefts < number rights)) ∧
    ∀ others : RegisterFile,
      let back := others.chain .sub .sbc sum.1 rights
      back.1 = lefts ∧ back.2.f.c = sum.2.f.c := by
  intro span sum difference
  have sums := carry_of_exact (number_chain_lt regs same) (chained_sum regs same nonempty)
  have differences :=
    borrow_of_exact (number_chain_lt regs same) (chained_difference regs same nonempty)
  exact ⟨⟨length_chain regs same, sums⟩, ⟨length_chain regs same, differences⟩,
    fun others => chained_back regs others same nonempty⟩

/-- A carry runs through every byte and out of the number, here from the lowest byte on; whatever
the registers hold, subtraction brings it back. -/
theorem chain_of_overflow :
    let sum := ({} : RegisterFile).chain .add .adc [0xFF, 0xFF] [0x01, 0x00]
    sum.1 = [0x00, 0x00] ∧ sum.2.f.c = true ∧
      ∀ others : RegisterFile,
        let back := others.chain .sub .sbc [0x00, 0x00] [0x01, 0x00]
        back.1 = [0xFF, 0xFF] ∧ back.2.f.c = true := by
  intro sum
  obtain ⟨⟨-, -, overflow⟩, -, returns⟩ :=
    @chains_exactly {} [0xFF, 0xFF] [0x01, 0x00] rfl (by decide)
  have bytes : sum.1 = [0x00, 0x00] := by decide
  have carry : sum.2.f.c = true := overflow.mpr (by decide)
  rw [bytes, carry] at returns
  exact ⟨bytes, carry, returns⟩

end RegisterFile

end Sm83
