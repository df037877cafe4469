import Sm83.Proofs.Ram.Words

/-!
# Words on a stack

A stack of words lies in a RAM at rising addresses, the top word first, each word with its lower
half first, past the last address on from the first. A word that is pushed below the stack leaves
the words of the stack alone as long as the RAM has room for all of them.
-/

namespace Sm83

/-- An address below a pointer is none of those that follow it, within the RAM. -/
theorem Word.sub_ofNat_ne_add_ofNat (pointer : UInt16) {back offset : Nat} (below : 0 < back)
    (apart : back + offset < UInt16.size) :
    pointer - UInt16.ofNat back ≠ pointer + UInt16.ofNat offset := by
  intro same
  have numbers := congrArg UInt16.toNat same
  have bound := pointer.toNat_lt
  simp only [UInt16.size] at apart
  simp only [UInt16.toNat_sub, UInt16.toNat_add, UInt16.toNat_ofNat'] at numbers
  omega

namespace Ram

/-- The RAM holds the words from an address on. -/
def Holds (ram : Ram) (pointer : UInt16) (words : List UInt16) : Prop :=
  ∀ (index : Nat) (bound : index < words.length),
    ram.read (pointer + UInt16.ofNat (2 * index)) = Word.low words[index] ∧
      ram.read (pointer + UInt16.ofNat (2 * index + 1)) = Word.high words[index]

/-- The RAM after a word was pushed below an address, the upper half before the lower one. -/
def pushWord (ram : Ram) (pointer word : UInt16) : Ram :=
  (ram.write (pointer - 1) (Word.high word)).write (pointer - 2) (Word.low word)

/-- A push writes the lower half of its word where the stack pointer is left. -/
@[simp] theorem read_pushWord_low (ram : Ram) (pointer word : UInt16) :
    (ram.pushWord pointer word).read (pointer - 2) = Word.low word :=
  read_write_self _ _ _

/-- A push writes the upper half of its word right below the stack pointer. -/
@[simp] theorem read_pushWord_high (ram : Ram) (pointer word : UInt16) :
    (ram.pushWord pointer word).read (pointer - 1) = Word.high word := by
  have apart : pointer - 2 ≠ pointer - 1 := by
    intro same
    have numbers := congrArg UInt16.toNat same
    have bound := pointer.toNat_lt
    simp only [UInt16.toNat_sub, UInt16.reduceToNat] at numbers
    omega
  unfold pushWord
  rw [read_write_of_ne _ _ apart, read_write_self]

/-- A push leaves all but two bytes alone. -/
theorem read_pushWord_of_ne (ram : Ram) {pointer address : UInt16} (word : UInt16)
    (high : address ≠ pointer - 1) (low : address ≠ pointer - 2) :
    (ram.pushWord pointer word).read address = ram.read address := by
  unfold pushWord
  rw [read_write_of_ne _ _ low.symm, read_write_of_ne _ _ high.symm]

/-- A word is pushed with its lower half at the lower address. -/
@[simp] theorem wordAt_pushWord (ram : Ram) (pointer word : UInt16) :
    (ram.pushWord pointer word).wordAt (pointer - 2) = word := by
  have next : pointer - 2 + 1 = pointer - 1 := by
    apply UInt16.toNat_inj.mp
    simp only [UInt16.toNat_add, UInt16.toNat_sub, UInt16.reduceToNat]
    omega
  unfold wordAt
  rw [next, read_pushWord_high, read_pushWord_low, Word.ofBytes_high_low]

variable {ram : Ram} {pointer word : UInt16} {words : List UInt16}

/-- No word is held anywhere. -/
theorem holds_nil (ram : Ram) (pointer : UInt16) : ram.Holds pointer [] :=
  fun _ impossible => absurd impossible (Nat.not_lt_zero _)

/-- The words behind the top one are held two addresses on. -/
theorem holds_cons :
    ram.Holds pointer (word :: words) ↔
      ram.wordAt pointer = word ∧ ram.Holds (pointer + 2) words := by
  have further (index : Nat) :
      pointer + 2 + UInt16.ofNat index = pointer + UInt16.ofNat (index + 2) := by
    rw [UInt16.add_assoc, Nat.add_comm index 2, UInt16.ofNat_add]
    rfl
  constructor
  · intro holds
    have top := holds 0 (Nat.succ_pos _)
    simp only [Nat.mul_zero, Nat.zero_add, List.getElem_cons_zero] at top
    refine ⟨?_, fun index bound => ?_⟩
    · have first : pointer + UInt16.ofNat 0 = pointer := UInt16.add_zero pointer
      rw [first] at top
      unfold wordAt
      rw [top.1]
      exact (congrArg (Word.ofBytes · _) top.2).trans (Word.ofBytes_high_low word)
    · have behind := holds (index + 1) (Nat.succ_lt_succ bound)
      rw [List.getElem_cons_succ] at behind
      rw [further, further]
      exact behind
  · rintro ⟨top, rest⟩ index bound
    cases index with
    | zero =>
      have first : pointer + UInt16.ofNat 0 = pointer := UInt16.add_zero pointer
      rw [List.getElem_cons_zero, ← top, wordAt, Word.low_ofBytes, Word.high_ofBytes, Nat.mul_zero,
        first]
      exact ⟨rfl, rfl⟩
    | succ index =>
      have behind := rest index (Nat.lt_of_succ_lt_succ bound)
      rw [further, further] at behind
      rw [List.getElem_cons_succ]
      exact behind

/-- A write at none of its addresses leaves a stack alone. -/
theorem Holds.write (holds : ram.Holds pointer words) {address : UInt16} {byte : UInt8}
    (apart : ∀ offset < 2 * words.length, address ≠ pointer + UInt16.ofNat offset) :
    (ram.write address byte).Holds pointer words := by
  intro index bound
  obtain ⟨low, high⟩ := holds index bound
  have first := apart (2 * index) (by omega)
  have second := apart (2 * index + 1) (by omega)
  rw [read_write_of_ne ram byte first, read_write_of_ne ram byte second]
  exact ⟨low, high⟩

/-- A word that is pushed where there is room for it comes on top of the others. -/
theorem Holds.push (holds : ram.Holds pointer words) (room : words.length < 32768)
    (word : UInt16) : (ram.pushWord pointer word).Holds (pointer - 2) (word :: words) := by
  rw [holds_cons, wordAt_pushWord, UInt16.sub_add_cancel]
  refine ⟨rfl, ?_⟩
  have below (back : Nat) (positive : 0 < back) (near : back ≤ 2) :
      ∀ offset < 2 * words.length, pointer - UInt16.ofNat back ≠ pointer + UInt16.ofNat offset := by
    intro offset bound
    apply Word.sub_ofNat_ne_add_ofNat pointer positive
    simp only [UInt16.size]
    omega
  have upper : (ram.write (pointer - 1) (Word.high word)).Holds pointer words :=
    holds.write (below 1 (by decide) (by decide))
  exact upper.write (below 2 (by decide) (by decide))

end Ram

end Sm83
