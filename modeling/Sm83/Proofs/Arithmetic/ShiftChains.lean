import Mathlib.Data.List.Induction
import Mathlib.Tactic.Linarith
import Sm83.Proofs.Arithmetic.Chains
import Sm83.Proofs.Arithmetic.Shifts

/-!
# Chains of shifts

Numbers of any length are shifted a byte at a time, the bit that leaves one byte being the carry of
the next. One equation between the byte with the bit that enters it and the result with the bit that
leaves it tells what a shift does, and the same equation holds of a whole chain. What a chain comes
to follows from it: the number doubled or halved, with or without a sign, and the number turned with
the carry as one further bit.
-/

namespace Sm83

/-! ## Numbers with a sign and with a carry -/

/-- One more byte on top of others weighs as much as the power of 256 that bounds them. -/
theorem number_concat (bytes : List UInt8) (top : UInt8) :
    number (bytes ++ [top]) = number bytes + 256 ^ bytes.length * top.toNat := by
  unfold number
  rw [List.map_append, Nat.ofDigits_append, List.length_map]
  exact congrArg _ (congrArg _ Nat.ofDigits_singleton)

/-- The number that bytes stand for if the topmost bit is a sign, in two's complement. -/
def signedNumber (bytes : List UInt8) : Int :=
  (BitVec.ofNat (8 * bytes.length) (number bytes)).toInt

/-- The bits of a number of so many bytes, and a carry as the bit above them. -/
def carriedBits (count : Nat) (bytes : List UInt8) (carry : Bool) : BitVec (8 * count + 1) :=
  BitVec.cons carry (BitVec.ofNat (8 * count) (number bytes))

/-- The power of two for so many bytes is a power of 256. -/
theorem two_pow_eq (count : Nat) : 2 ^ (8 * count) = 256 ^ count := Nat.pow_mul 2 8 count

/-- The carry weighs as much as the power of 256 that bounds the number. -/
theorem toNat_carriedBits {bytes : List UInt8} {count : Nat} (length : bytes.length = count)
    (carry : Bool) :
    (carriedBits count bytes carry).toNat = 256 ^ count * carry.toNat + number bytes := by
  have bound := number_lt bytes
  rw [length, ← two_pow_eq] at bound
  rw [carriedBits, BitVec.toNat_cons', BitVec.toNat_ofNat, Nat.mod_eq_of_lt bound,
    Nat.shiftLeft_eq, two_pow_eq, Nat.mul_comm]

/-- The topmost bit tells whether the number is at least half of its bound. -/
theorem testBit_top_iff {bytes : List UInt8} (nonempty : 0 < bytes.length) :
    (number bytes).testBit (8 * bytes.length - 1) = true ↔
      256 ^ bytes.length ≤ 2 * number bytes := by
  have bound := number_lt bytes
  have twice : 2 * 2 ^ (8 * bytes.length - 1) = 256 ^ bytes.length := by
    rw [← two_pow_eq, ← Nat.pow_succ']
    congr 1
    omega
  rw [Nat.testBit_eq_decide_div_mod_eq, decide_eq_true_iff]
  generalize 2 ^ (8 * bytes.length - 1) = half at twice
  by_cases upper : 256 ^ bytes.length ≤ 2 * number bytes
  · have quotient : number bytes / half = 1 := Nat.div_eq_of_lt_le (by omega) (by omega)
    simp [quotient, upper]
  · have quotient : number bytes / half = 0 := Nat.div_eq_of_lt (by omega)
    simp [quotient, upper]

/-- The sign weighs as much as the power of 256 that bounds the number, downwards. -/
theorem signedNumber_eq (bytes : List UInt8) :
    signedNumber bytes =
      number bytes -
        (if 256 ^ bytes.length ≤ 2 * number bytes then 256 ^ bytes.length else 0 : Nat) := by
  have bound : number bytes < 2 ^ (8 * bytes.length) := by
    rw [two_pow_eq]
    exact number_lt bytes
  rw [signedNumber, BitVec.toInt_eq_toNat_cond, BitVec.toNat_ofNat, Nat.mod_eq_of_lt bound,
    two_pow_eq]
  by_cases upper : 256 ^ bytes.length ≤ 2 * number bytes
  · rw [if_neg (by omega), if_pos upper]
  · rw [if_pos (by omega), if_neg upper, Int.ofNat_zero, Int.sub_zero]

/-- The topmost bit is that of the topmost byte. -/
theorem le_two_mul_number_concat_iff (bytes : List UInt8) (top : UInt8) :
    256 ^ (bytes ++ [top]).length ≤ 2 * number (bytes ++ [top]) ↔ bitOf top 7 = true := by
  have bit : ∀ byte : UInt8, bitOf byte 7 = true ↔ 128 ≤ byte.toNat :=
    forall_byte (by decide +kernel)
  have bound := number_lt bytes
  rw [bit, number_concat, List.length_append, List.length_singleton, pow_succ]
  constructor
  · intro upper
    by_contra small
    have most : 256 ^ bytes.length * top.toNat ≤ 256 ^ bytes.length * 127 :=
      Nat.mul_le_mul_left _ (by omega)
    omega
  · intro large
    have least : 256 ^ bytes.length * 128 ≤ 256 ^ bytes.length * top.toNat :=
      Nat.mul_le_mul_left _ large
    omega

/-- Turning a string of bits left by one doubles it and brings its topmost bit to the other end. -/
theorem toNat_rotateLeft_one {width : Nat} (positive : 0 < width) (bits : BitVec (width + 1)) :
    (bits.rotateLeft 1).toNat = 2 * (bits.toNat % 2 ^ width) + bits.toNat / 2 ^ width := by
  have bound := bits.isLt
  have one : 1 % (width + 1) = 1 := Nat.mod_eq_of_lt (by omega)
  have top : bits.toNat / 2 ^ width < 2 ^ 1 := by
    rw [Nat.div_lt_iff_lt_mul (Nat.two_pow_pos width), ← Nat.pow_add, Nat.add_comm 1]
    exact bound
  have doubled : bits.toNat <<< 1 % 2 ^ (width + 1) = (bits.toNat % 2 ^ width) <<< 1 := by
    rw [Nat.shiftLeft_eq, Nat.shiftLeft_eq, Nat.pow_one, Nat.pow_succ, Nat.mul_mod_mul_right]
  have disjoint := Nat.shiftLeft_add_eq_or_of_lt top (bits.toNat % 2 ^ width)
  rw [BitVec.toNat_rotateLeft, one, Nat.add_sub_cancel, Nat.shiftRight_eq_div_pow, doubled,
    ← disjoint, Nat.shiftLeft_eq]
  omega

/-- Turning a string of bits right by one halves it and brings its lowest bit to the other end. -/
theorem toNat_rotateRight_one {width : Nat} (positive : 0 < width) (bits : BitVec (width + 1)) :
    (bits.rotateRight 1).toNat = bits.toNat / 2 + 2 ^ width * (bits.toNat % 2) := by
  have bound := bits.isLt
  have one : 1 % (width + 1) = 1 := Nat.mod_eq_of_lt (by omega)
  have half : bits.toNat / 2 < 2 ^ width := by
    rw [Nat.pow_succ] at bound
    omega
  have lowest : bits.toNat <<< width % 2 ^ (width + 1) = (bits.toNat % 2) <<< width := by
    rw [Nat.shiftLeft_eq, Nat.shiftLeft_eq, Nat.pow_succ', Nat.mul_mod_mul_right]
  have disjoint := Nat.shiftLeft_add_eq_or_of_lt half (bits.toNat % 2)
  rw [BitVec.toNat_rotateRight, one, Nat.add_sub_cancel, Nat.shiftRight_eq_div_pow, lowest,
    Nat.pow_one, Nat.or_comm, ← disjoint, Nat.shiftLeft_eq]
  rw [Nat.mul_comm, Nat.add_comm]

namespace Shift

/-! ## One byte -/

/-- The bit that enters a byte. -/
def entering (kind : Shift) (byte : UInt8) (carry : Bool) : Bool :=
  match kind with
  | rlc | sra => bitOf byte 7
  | rrc => bitOf byte 0
  | rl | rr => carry
  | sla | srl | swap => false

/-- The shift moves the bits of a byte up: the byte is doubled, and a bit enters at its end. -/
def Doubles (kind : Shift) : Prop :=
  ∀ (carry : Bool) (byte : UInt8), (kind.apply byte carry).value.toNat +
      256 * (kind.apply byte carry).carry.toNat =
    2 * byte.toNat + (kind.entering byte carry).toNat

/-- The shift moves the bits of a byte down: the byte is halved, and a bit enters at its top. -/
def Halves (kind : Shift) : Prop :=
  ∀ (carry : Bool) (byte : UInt8),
    2 * (kind.apply byte carry).value.toNat + (kind.apply byte carry).carry.toNat =
      byte.toNat + 256 * (kind.entering byte carry).toNat

/-- The shifts to the left double. -/
theorem doubles_of_left {kind : Shift} (left : kind = rlc ∨ kind = rl ∨ kind = sla) :
    kind.Doubles := by
  intro carry
  rcases left with rfl | rfl | rfl <;> cases carry <;> exact forall_byte (by decide +kernel)

/-- The shifts to the right halve. -/
theorem halves_of_right {kind : Shift} (right : kind = rrc ∨ kind = rr ∨ kind = sra ∨ kind = srl) :
    kind.Halves := by
  intro carry
  rcases right with rfl | rfl | rfl | rfl <;> cases carry <;>
    exact forall_byte (by decide +kernel)

/-! ## Chains -/

/-- Shift bytes one after another, the first by one shift and those behind it by another, the bit
that leaves a byte being the carry of the next. Gives the bytes, and the bit that left the last. -/
def chain (first further : Shift) (carry : Bool) : List UInt8 → List UInt8 × Bool
  | [] => ([], carry)
  | byte :: rest =>
    let moved := first.apply byte carry
    let others := chain further further moved.carry rest
    (moved.value :: others.1, others.2)

/-- Shift bytes one after another in the same way, but from the last one on. -/
def downward (first further : Shift) (carry : Bool) (bytes : List UInt8) : List UInt8 × Bool :=
  let result := chain first further carry bytes.reverse
  (result.1.reverse, result.2)

variable {first further : Shift} {bytes : List UInt8} {entered carry : Bool}
  {result : List UInt8 × Bool}

/-- A chain gives as many bytes as it is given. -/
theorem length_chain (first further : Shift) (carry : Bool) (bytes : List UInt8) :
    (chain first further carry bytes).1.length = bytes.length := by
  induction bytes generalizing first carry with
  | nil => rfl
  | cons byte rest ih => exact congrArg (· + 1) (ih further _)

/-- A chain from the last byte on gives as many bytes as it is given. -/
theorem length_downward (first further : Shift) (carry : Bool) (bytes : List UInt8) :
    (downward first further carry bytes).1.length = bytes.length := by
  rw [downward, List.length_reverse, length_chain, List.length_reverse]

/-- A chain from the last byte on starts with the topmost byte. -/
theorem downward_concat (first further : Shift) (carry : Bool) (bytes : List UInt8) (top : UInt8) :
    let moved := first.apply top carry
    let others := downward further further moved.carry bytes
    downward first further carry (bytes ++ [top]) = (others.1 ++ [moved.value], others.2) := by
  simp [downward, chain]

/-- The number is doubled, with a bit that enters at its end and one that leaves it at its top. -/
structure IsDoubled (bytes : List UInt8) (entered : Bool) (result : List UInt8 × Bool) : Prop where
  length : result.1.length = bytes.length
  exact : number result.1 + 256 ^ bytes.length * result.2.toNat = 2 * number bytes + entered.toNat

/-- The number is halved, with a bit that enters at its top and one that leaves it at its end. -/
structure IsHalved (bytes : List UInt8) (entered : Bool) (result : List UInt8 × Bool) : Prop where
  length : result.1.length = bytes.length
  exact : 2 * number result.1 + result.2.toNat = number bytes + 256 ^ bytes.length * entered.toNat

/-- A byte that is doubled below a doubled number makes a longer one. -/
theorem IsDoubled.cons (doubles : first.Doubles) (byte : UInt8) (carry : Bool) {rest : List UInt8}
    (others : let moved := first.apply byte carry
      IsDoubled rest moved.carry (chain further further moved.carry rest)) :
    IsDoubled (byte :: rest) (first.entering byte carry)
      (chain first further carry (byte :: rest)) where
  length := length_chain first further carry (byte :: rest)
  exact := by
    have step := doubles carry byte
    have onward := others.exact
    simp only [chain, number_cons, List.length_cons, pow_succ]
    linarith

/-- A byte that is halved above a halved number makes a longer one. -/
theorem IsHalved.concat (halves : first.Halves) (top : UInt8) (carry : Bool)
    (others : let moved := first.apply top carry
      IsHalved bytes moved.carry (downward further further moved.carry bytes)) :
    IsHalved (bytes ++ [top]) (first.entering top carry)
      (downward first further carry (bytes ++ [top])) where
  length := length_downward first further carry (bytes ++ [top])
  exact := by
    have step := congrArg (256 ^ bytes.length * ·) (halves carry top)
    have onward := others.exact
    simp only [downward_concat, number_concat, others.length, List.length_append,
      List.length_singleton, pow_succ]
    linarith

/-- Rotating to the left through the carry doubles a number, and the carry enters it. -/
theorem isDoubled_rl (carry : Bool) (bytes : List UInt8) :
    IsDoubled bytes carry (chain rl rl carry bytes) := by
  induction bytes generalizing carry with
  | nil => exact ⟨rfl, by simp [chain, number_nil]⟩
  | cons byte rest ih => exact .cons (doubles_of_left (.inr (.inl rfl))) byte carry (ih _)

/-- Rotating to the right through the carry halves a number, and the carry enters it. -/
theorem isHalved_rr (carry : Bool) (bytes : List UInt8) :
    IsHalved bytes carry (downward rr rr carry bytes) := by
  induction bytes using List.reverseRecOn generalizing carry with
  | nil => exact ⟨rfl, by simp [downward, chain, number_nil]⟩
  | append_singleton bytes top ih =>
    exact .concat (halves_of_right (.inr (.inl rfl))) top carry (ih _)

/-- Doubling the lowest byte and rotating on from there doubles a number. -/
theorem isDoubled_sla (nonempty : 0 < bytes.length) (carry : Bool) :
    IsDoubled bytes false (chain sla rl carry bytes) := by
  cases bytes with
  | nil => cases nonempty
  | cons byte rest =>
    exact .cons (doubles_of_left (.inr (.inr rfl))) byte carry (isDoubled_rl _ rest)

/-- Halving the topmost byte and rotating on from there halves a number. -/
theorem isHalved_srl (nonempty : 0 < bytes.length) (carry : Bool) :
    IsHalved bytes false (downward srl rr carry bytes) := by
  induction bytes using List.reverseRecOn with
  | nil => cases nonempty
  | append_singleton bytes top =>
    exact .concat (halves_of_right (.inr (.inr (.inr rfl)))) top carry (isHalved_rr _ bytes)

/-- Halving the topmost byte with its sign and rotating on from there halves a number, and the sign
enters it. -/
theorem isHalved_sra (nonempty : 0 < bytes.length) (carry : Bool) :
    IsHalved bytes (decide (256 ^ bytes.length ≤ 2 * number bytes))
      (downward sra rr carry bytes) := by
  induction bytes using List.reverseRecOn with
  | nil => cases nonempty
  | append_singleton bytes top =>
    have sign : decide (256 ^ (bytes ++ [top]).length ≤ 2 * number (bytes ++ [top])) =
        sra.entering top carry := by
      rw [Bool.eq_iff_iff, decide_eq_true_iff]
      exact le_two_mul_number_concat_iff bytes top
    rw [sign]
    exact .concat (halves_of_right (.inr (.inr (.inl rfl)))) top carry (isHalved_rr _ bytes)

/-! ## What chains come to -/

/-- A number that is doubled is so modulo its bound, and the bit that leaves it is its topmost. -/
theorem IsDoubled.total (doubled : IsDoubled bytes false result) (nonempty : 0 < bytes.length) :
    number result.1 = 2 * number bytes % 256 ^ bytes.length ∧
      result.2 = (number bytes).testBit (8 * bytes.length - 1) := by
  have bound := number_lt result.1
  rw [doubled.length] at bound
  obtain ⟨left, carry⟩ := carry_of_exact bound doubled.exact
  exact ⟨left, Bool.eq_iff_iff.mpr (carry.trans (testBit_top_iff nonempty).symm)⟩

/-- A number that is halved is rounded down, and the bit that leaves it is its lowest. -/
theorem IsHalved.total (halved : IsHalved bytes false result) :
    number result.1 = number bytes / 2 ∧ result.2.toNat = number bytes % 2 := by
  have exact := halved.exact
  have bit := result.2.toNat_le
  rw [Bool.toNat_false, Nat.mul_zero] at exact
  omega

/-- A number that is halved with its sign is rounded down, and the bit that leaves it is its
lowest. -/
theorem IsHalved.total_signed
    (halved : IsHalved bytes (decide (256 ^ bytes.length ≤ 2 * number bytes)) result)
    (nonempty : 0 < bytes.length) :
    signedNumber result.1 = signedNumber bytes / 2 ∧ result.2.toNat = number bytes % 2 := by
  have exact := halved.exact
  have bit := result.2.toNat_le
  have bound := number_lt bytes
  have even : 256 ^ bytes.length % 2 = 0 := by
    obtain ⟨count, total⟩ : ∃ count, bytes.length = count + 1 :=
      ⟨_, (Nat.sub_add_cancel nonempty).symm⟩
    rw [total, pow_succ]
    omega
  rw [signedNumber_eq, signedNumber_eq, halved.length]
  by_cases negative : 256 ^ bytes.length ≤ 2 * number bytes
  · rw [decide_eq_true negative, Bool.toNat_true, Nat.mul_one] at exact
    rw [if_pos (by omega), if_pos negative]
    omega
  · rw [decide_eq_false negative, Bool.toNat_false, Nat.mul_zero] at exact
    rw [if_neg (by omega), if_neg negative]
    omega

/-- Doubling with the carry turns the number and the carry to the left. -/
theorem IsDoubled.rotates (doubled : IsDoubled bytes carry result) (nonempty : 0 < bytes.length) :
    carriedBits bytes.length result.1 result.2 =
      (carriedBits bytes.length bytes carry).rotateLeft 1 := by
  have bound := number_lt bytes
  have before := toNat_carriedBits (Eq.refl bytes.length) carry
  have after := toNat_carriedBits doubled.length result.2
  have turned : ((carriedBits bytes.length bytes carry).rotateLeft 1).toNat =
      2 * number bytes + carry.toNat := by
    rw [toNat_rotateLeft_one (by omega), before, two_pow_eq, Nat.mul_add_mod,
      Nat.mod_eq_of_lt bound, Nat.mul_add_div (Nat.pow_pos (by decide)), Nat.div_eq_of_lt bound,
      Nat.add_zero]
  have exact := doubled.exact
  apply BitVec.eq_of_toNat_eq
  omega

/-- Halving with the carry turns the number and the carry to the right. -/
theorem IsHalved.rotates (halved : IsHalved bytes carry result) (nonempty : 0 < bytes.length) :
    carriedBits bytes.length result.1 result.2 =
      (carriedBits bytes.length bytes carry).rotateRight 1 := by
  have before := toNat_carriedBits (Eq.refl bytes.length) carry
  have after := toNat_carriedBits halved.length result.2
  have total : (carriedBits bytes.length bytes carry).toNat =
      2 * number result.1 + result.2.toNat := by
    rw [before, halved.exact, Nat.add_comm]
  have turned : ((carriedBits bytes.length bytes carry).rotateRight 1).toNat =
      number result.1 + 256 ^ bytes.length * result.2.toNat := by
    have bit := result.2.toNat_lt
    rw [toNat_rotateRight_one (by omega), total, two_pow_eq, Nat.mul_add_mod,
      Nat.mod_eq_of_lt bit, Nat.mul_add_div (by decide), Nat.div_eq_of_lt bit, Nat.add_zero]
  apply BitVec.eq_of_toNat_eq
  omega

/-- A number that is doubled and then halved with what left it is as it was. -/
theorem IsDoubled.undone {back : List UInt8 × Bool} (doubled : IsDoubled bytes carry result)
    (halved : IsHalved result.1 result.2 back) : back = (bytes, carry) := by
  have forth := doubled.exact
  have returns := halved.exact
  rw [doubled.length, forth] at returns
  have bits := And.intro back.2.toNat_le carry.toNat_le
  have sameBytes : back.1 = bytes :=
    eq_of_number_eq (halved.length.trans doubled.length) (by omega)
  have sameCarry : back.2 = carry := by
    rw [sameBytes, Nat.add_left_cancel_iff] at returns
    cases up : back.2 <;> cases down : carry <;> simp_all
  exact Prod.ext sameBytes sameCarry

/-- A number that is halved and then doubled with what left it is as it was. -/
theorem IsHalved.undone {back : List UInt8 × Bool} (halved : IsHalved bytes carry result)
    (doubled : IsDoubled result.1 result.2 back) : back = (bytes, carry) := by
  have forth := halved.exact
  have returns := doubled.exact
  have length := doubled.length.trans halved.length
  have backBound := number_lt back.1
  rw [halved.length, forth] at returns
  rw [length] at backBound
  obtain ⟨backNumber, backCarry⟩ := carry_of_exact backBound returns
  obtain ⟨whole, carried⟩ := carry_of_exact (number_lt bytes) (Eq.refl
    (number bytes + 256 ^ bytes.length * carry.toNat))
  exact Prod.ext (eq_of_number_eq length (backNumber.trans whole.symm))
    (Bool.eq_iff_iff.mpr (backCarry.trans carried.symm))

/-- Taken a byte at a time, shifts are those of numbers of any length. Doubling goes from the lowest
byte on and is modulo the power of 256 that bounds the number, with the topmost bit left as the
carry; halving goes from the topmost byte on and rounds down, also where the topmost bit is a sign,
with the lowest bit left as the carry. Rotating turns the bits of the number and the carry as one
string, to the left from the lowest byte on and to the right from the topmost, and either rotation
undoes the other. -/
theorem shifts_any_width (nonempty : 0 < bytes.length) (carry : Bool) :
    let count := bytes.length
    let whole := number bytes
    let doubled := chain sla rl carry bytes
    let halved := downward srl rr carry bytes
    let signHalved := downward sra rr carry bytes
    let left := chain rl rl carry bytes
    let right := downward rr rr carry bytes
    (doubled.1.length = count ∧ number doubled.1 = 2 * whole % 256 ^ count ∧
      doubled.2 = whole.testBit (8 * count - 1)) ∧
    (halved.1.length = count ∧ number halved.1 = whole / 2 ∧ halved.2.toNat = whole % 2) ∧
    (signHalved.1.length = count ∧ signedNumber signHalved.1 = signedNumber bytes / 2 ∧
      signHalved.2.toNat = whole % 2) ∧
    (left.1.length = count ∧
      carriedBits count left.1 left.2 = (carriedBits count bytes carry).rotateLeft 1 ∧
      downward rr rr left.2 left.1 = (bytes, carry)) ∧
    right.1.length = count ∧
      carriedBits count right.1 right.2 = (carriedBits count bytes carry).rotateRight 1 ∧
      chain rl rl right.2 right.1 = (bytes, carry) := by
  intro count whole doubled halved signHalved left right
  have doubles : IsDoubled bytes false doubled := isDoubled_sla nonempty carry
  have halves : IsHalved bytes false halved := isHalved_srl nonempty carry
  have signHalves := isHalved_sra nonempty carry
  have leftward : IsDoubled bytes carry left := isDoubled_rl carry bytes
  have rightward : IsHalved bytes carry right := isHalved_rr carry bytes
  exact ⟨⟨doubles.length, doubles.total nonempty⟩, ⟨halves.length, halves.total⟩,
    ⟨signHalves.length, signHalves.total_signed nonempty⟩,
    ⟨leftward.length, leftward.rotates nonempty, leftward.undone (isHalved_rr _ _)⟩,
    rightward.length, rightward.rotates nonempty, rightward.undone (isDoubled_rl _ _)⟩

/-- A number of two bytes with both ends set, shifted in each way with a carry. -/
theorem shifts_of_both_ends :
    let bytes : List UInt8 := [0x01, 0x80]
    0 < bytes.length ∧
      chain sla rl true bytes = ([0x02, 0x00], true) ∧
      number [0x02, 0x00] = 2 * number bytes % 256 ^ 2 ∧
      downward sra rr true bytes = ([0x00, 0xC0], true) ∧
      signedNumber [0x00, 0xC0] = signedNumber bytes / 2 ∧
      downward rr rr true (chain rl rl false bytes).1 = (bytes, false) := by
  intro bytes
  obtain ⟨⟨-, doubled, -⟩, -, ⟨-, halved, -⟩, -⟩ := @shifts_any_width bytes (by decide) true
  obtain ⟨-, -, -, ⟨-, -, back⟩, -⟩ := @shifts_any_width bytes (by decide) false
  have up : chain sla rl true bytes = ([0x02, 0x00], true) := by decide
  have down : downward sra rr true bytes = ([0x00, 0xC0], true) := by decide
  have left : (chain rl rl false bytes).2 = true := by decide
  rw [up] at doubled
  rw [down] at halved
  rw [left] at back
  exact ⟨by decide, up, doubled, down, halved, back⟩

end Shift

end Sm83
