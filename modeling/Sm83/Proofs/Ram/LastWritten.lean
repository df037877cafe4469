import Mathlib.Data.List.Induction
import Mathlib.Data.Set.Basic
import Mathlib.Order.Bounds.Defs
import Sm83.Proofs.Bus.Locality
import Sm83.Proofs.Ram.Words

/-!
# What was written last

The byte at an address of a RAM is the one that was written there last, be it by itself, as half of
a word or within a block, however often the block comes around to the address. A word that is read
is made of the bytes that were written last at its two addresses.
-/

namespace Sm83

/-! ## Arrays -/

/-- Make an access to an array of bytes, which fails at an address past its end. -/
def Access.applyTo? (access : Access) (bytes : Array UInt8) : Option (Array UInt8) :=
  match access with
  | read address _ => if address.toNat < bytes.size then some bytes else none
  | write address byte =>
    if inside : address.toNat < bytes.size then some (bytes.set address.toNat byte) else none

namespace Ram

variable {start address : UInt16} {bytes : List UInt8} {byte : UInt8}

/-- No access to a RAM lies past the end of its array. -/
theorem foldlM_applyTo? (ram : Ram) (accesses : List Access) :
    accesses.foldlM (fun bytes access => access.applyTo? bytes) ram.toArray =
      some (ram.overwrite accesses).toArray := by
  induction accesses generalizing ram with
  | nil => rfl
  | cons access rest ih =>
    have inside (address : UInt16) : address.toNat < ram.toArray.size := by
      rw [size_toArray]
      exact address.toNat_lt_size
    rw [List.foldlM_cons]
    cases access with
    | read source byte =>
      simp only [Access.applyTo?, if_pos (inside source)]
      exact ih ram
    | write target byte =>
      simp only [Access.applyTo?, dif_pos (inside target)]
      exact ih (ram.write target byte)

/-! ## Blocks -/

/-- The writes of a block, each byte at the address that lies its offset behind the start. -/
def blockWrites (start : UInt16) (bytes : List UInt8) : List Access :=
  bytes.mapIdx fun offset byte => .write (UInt16.ofNat (start.toNat + offset)) byte

/-- The offsets at which a block from one address on falls on another. -/
def offsetsOn (start : UInt16) (bytes : List UInt8) (address : UInt16) : Set Nat :=
  {offset | offset < bytes.length ∧ (start.toNat + offset) % 65536 = address.toNat}

/-- A block falls on an address at an offset if that is how far the address lies behind its
start. -/
theorem add_mod_eq_iff {offset : Nat} :
    (start.toNat + offset) % 65536 = address.toNat ↔ start + UInt16.ofNat offset = address := by
  rw [← UInt16.toNat_inj, Word.toNat_add_ofNat]

/-- The last byte of a block is written behind all others. -/
theorem load_concat (ram : Ram) (start : UInt16) (bytes : List UInt8) (byte : UInt8) :
    ram.load start (bytes ++ [byte]) =
      (ram.load start bytes).write (start + UInt16.ofNat bytes.length) byte :=
  ram.load_append start bytes [byte]

/-- Loading a block is making its writes. -/
theorem load_eq_overwrite (ram : Ram) (start : UInt16) (bytes : List UInt8) :
    ram.load start bytes = ram.overwrite (blockWrites start bytes) := by
  induction bytes using List.reverseRecOn with
  | nil => rfl
  | append_singleton bytes byte ih =>
    rw [load_concat, ih, blockWrites, blockWrites, List.mapIdx_concat, overwrite_append,
      Word.ofNat_toNat_add]
    rfl

/-- A block that grows by a byte elsewhere falls on an address at the same offsets. -/
theorem offsetsOn_concat_of_ne (elsewhere : start + UInt16.ofNat bytes.length ≠ address) :
    offsetsOn start (bytes ++ [byte]) address = offsetsOn start bytes address := by
  ext offset
  simp only [offsetsOn, Set.mem_ofPred_eq, List.length_append, List.length_singleton]
  constructor
  · rintro ⟨bound, falls⟩
    have other : offset ≠ bytes.length := by
      rintro rfl
      exact elsewhere (add_mod_eq_iff.mp falls)
    exact ⟨by omega, falls⟩
  · rintro ⟨bound, falls⟩
    exact ⟨by omega, falls⟩

/-- The last byte of a block falls on its address at the greatest offset. -/
theorem isGreatest_offsetsOn_concat (here : start + UInt16.ofNat bytes.length = address) :
    IsGreatest (offsetsOn start (bytes ++ [byte]) address) bytes.length := by
  constructor
  · exact ⟨by simp, add_mod_eq_iff.mpr here⟩
  · rintro offset ⟨bound, -⟩
    rw [List.length_append, List.length_singleton] at bound
    exact Nat.le_of_lt_succ bound

/-- After a block was loaded an address holds the byte at the greatest offset at which the block
falls on it, or the byte from before if there is none. -/
theorem read_load (ram : Ram) (start : UInt16) (bytes : List UInt8) (address : UInt16) :
    (∃ offset, IsGreatest (offsetsOn start bytes address) offset ∧
      bytes[offset]? = some ((ram.load start bytes).read address)) ∨
    (offsetsOn start bytes address = ∅ ∧
      (ram.load start bytes).read address = ram.read address) := by
  induction bytes using List.reverseRecOn with
  | nil =>
    have untouched : offsetsOn start [] address = ∅ := by
      ext offset
      simp [offsetsOn]
    exact .inr ⟨untouched, rfl⟩
  | append_singleton bytes byte ih =>
    rw [load_concat]
    by_cases here : start + UInt16.ofNat bytes.length = address
    · refine .inl ⟨bytes.length, isGreatest_offsetsOn_concat here, ?_⟩
      rw [List.getElem?_concat_length, here, read_write_self]
    · rw [offsetsOn_concat_of_ne here, read_write_of_ne _ _ here]
      rcases ih with ⟨offset, last, found⟩ | kept
      · exact .inl ⟨offset, last, by rw [List.getElem?_append_left last.1.1, found]⟩
      · exact .inr kept

/-! ## Any changes in turn -/

/-- A change to a RAM. -/
inductive Edit where
  /-- Load a block. -/
  | load (start : UInt16) (bytes : List UInt8)
  /-- Write a byte. -/
  | write (address : UInt16) (byte : UInt8)
  /-- Write a word. -/
  | writeWord (address word : UInt16)

/-- The RAM after a change. -/
def edit (ram : Ram) : Edit → Ram
  | .load start bytes => ram.load start bytes
  | .write address byte => Memory.write ram address byte
  | .writeWord address word => ((Bus.writeWord address word).exec ram).memory

/-- The writes of a change; a word is written with the remainder by 256 at the lower address. -/
def Edit.writes : Edit → List Access
  | load start bytes => blockWrites start bytes
  | write address byte => [.write address byte]
  | writeWord address word =>
    [.write address (UInt8.ofNat (word.toNat % 256)),
      .write (UInt16.ofNat (address.toNat + 1)) (UInt8.ofNat (word.toNat / 256))]

/-- The RAM after changes in turn. -/
def edits (ram : Ram) (changes : List Edit) : Ram := changes.foldl edit ram

/-- The byte that changes in turn leave at an address: the one that they write there last, or else
the one from before. -/
def current (ram : Ram) (changes : List Edit) (address : UInt16) : UInt8 :=
  (lastWritten? address (changes.flatMap Edit.writes)).getD (ram.read address)

/-- A change makes its writes. -/
theorem edit_eq_overwrite (ram : Ram) (change : Edit) :
    ram.edit change = ram.overwrite change.writes := by
  cases change with
  | load start bytes => exact ram.load_eq_overwrite start bytes
  | write address byte => rfl
  | writeWord address word =>
    have low : UInt8.ofNat (word.toNat % 256) = Word.low word := by
      rw [← Word.toNat_low, UInt8.ofNat_toNat]
    have high : UInt8.ofNat (word.toNat / 256) = Word.high word := by
      rw [← Word.toNat_high, UInt8.ofNat_toNat]
    rw [edit, exec_writeWord, Edit.writes, low, high, Word.ofNat_toNat_add]
    rfl

/-- Changes in turn make their writes in turn. -/
theorem edits_eq_overwrite (ram : Ram) (changes : List Edit) :
    ram.edits changes = ram.overwrite (changes.flatMap Edit.writes) := by
  induction changes generalizing ram with
  | nil => rfl
  | cons change rest ih =>
    rw [List.flatMap_cons, overwrite_append, ← edit_eq_overwrite]
    exact ih (ram.edit change)

/-- Changes in turn leave what they write last. -/
theorem read_edits (ram : Ram) (changes : List Edit) (address : UInt16) :
    (ram.edits changes).read address = ram.current changes address := by
  rw [edits_eq_overwrite, read_overwrite, current]

/-- Loading a block is writing its bytes one at a time. -/
theorem edits_write (ram : Ram) (start : UInt16) (bytes : List UInt8) :
    ram.edits (bytes.mapIdx fun offset byte =>
      .write (UInt16.ofNat (start.toNat + offset)) byte) = ram.load start bytes := by
  rw [edits_eq_overwrite, load_eq_overwrite, blockWrites, List.mapIdx_eq_zipIdx_map,
    List.mapIdx_eq_zipIdx_map, List.flatMap_map, List.map_eq_flatMap]
  rfl

/-- However a RAM was loaded and written, each address holds the byte that was written there last.
A block of any length leaves at an address the byte at the greatest offset at which it falls there,
or the byte from before; it may be loaded in two parts, or written a byte at a time. All writes lie
within the array of the RAM. A word that is read is made of the bytes at its two addresses, the
second of which is the first one behind the last; a word that was written there is read back, and
every other byte is as it was. -/
theorem holds_last_written (ram : Ram) :
    (∀ (start : UInt16) (bytes : List UInt8),
      let loaded := ram.load start bytes
      (∀ address,
        (∃ offset, IsGreatest (offsetsOn start bytes address) offset ∧
          bytes[offset]? = some (loaded.read address)) ∨
        (offsetsOn start bytes address = ∅ ∧ loaded.read address = ram.read address)) ∧
      (∀ further, ram.load start (bytes ++ further) =
        loaded.load (UInt16.ofNat (start.toNat + bytes.length)) further) ∧
      loaded = ram.edits (bytes.mapIdx fun offset byte =>
        .write (UInt16.ofNat (start.toNat + offset)) byte)) ∧
    ∀ changes : List Edit,
      let edited := ram.edits changes
      edited.toArray.size = 65536 ∧
      (changes.flatMap Edit.writes).foldlM (fun bytes access => access.applyTo? bytes) ram.toArray =
        some edited.toArray ∧
      (∀ address, edited.read address = ram.current changes address) ∧
      ∀ address,
        let next := UInt16.ofNat (address.toNat + 1)
        let found := (Bus.readWord address).exec edited
        found.memory = edited ∧
        found.value.toNat =
          (ram.current changes address).toNat + 256 * (ram.current changes next).toNat ∧
        ∀ word,
          let written := edited.edit (.writeWord address word)
          ((Bus.readWord address).exec written).value = word ∧
          ∀ other, other ≠ address → other ≠ next → written.read other = edited.read other := by
  constructor
  · intro start bytes loaded
    refine ⟨ram.read_load start bytes, fun further => ?_, (ram.edits_write start bytes).symm⟩
    rw [Word.ofNat_toNat_add]
    exact ram.load_append start bytes further
  · intro changes edited
    have arrays := ram.foldlM_applyTo? (changes.flatMap Edit.writes)
    rw [← edits_eq_overwrite] at arrays
    refine ⟨edited.size_toArray, arrays, ram.read_edits changes, fun address => ?_⟩
    rw [Word.ofNat_toNat_add]
    intro next found
    refine ⟨rfl, ?_, fun word => ⟨edited.wordAt_putWord address word, fun other low high => ?_⟩⟩
    · rw [← read_edits, ← read_edits, Nat.add_comm]
      exact Word.toNat_ofBytes _ _
    · exact edited.read_putWord_of_ne word low high

/-- A block that is longer than the RAM writes its last byte over its first, and a word at the last
address goes on at the first one. -/
theorem last_written_around_end :
    let bytes : List UInt8 := List.replicate 65536 0x11 ++ [0x22]
    let changes : List Edit := [.load 0xFFFF [0xAB, 0xCD, 0xEF], .writeWord 0xFFFF 0x1234]
    (zero.load 0xFFFF bytes).read 0xFFFF = 0x22 ∧
      (zero.edits changes).read 0x0000 = 0x12 ∧
      ((0x0001 : UInt16) ≠ 0xFFFF ∧ (0x0001 : UInt16) ≠ UInt16.ofNat (0xFFFF + 1)) ∧
      (zero.edits changes).read 0x0001 = 0xEF := by
  intro bytes changes
  obtain ⟨blocks, sequences⟩ := zero.holds_last_written
  obtain ⟨fallen, -, -⟩ := blocks 0xFFFF bytes
  obtain ⟨-, -, before, words⟩ := sequences [.load 0xFFFF [0xAB, 0xCD, 0xEF]]
  obtain ⟨-, -, written⟩ := words 0xFFFF
  obtain ⟨-, kept⟩ := written 0x1234
  have length : bytes.length = 65537 := by
    rw [List.length_append, List.length_replicate, List.length_singleton]
  have only : bytes[(List.replicate 65536 (0x11 : UInt8)).length]? = some 0x22 :=
    List.getElem?_concat_length
  rw [List.length_replicate] at only
  have again : 65536 ∈ offsetsOn 0xFFFF bytes 0xFFFF := by
    refine ⟨?_, by decide⟩
    omega
  have last : (zero.load 0xFFFF bytes).read 0xFFFF = 0x22 := by
    rcases fallen 0xFFFF with ⟨offset, greatest, found⟩ | ⟨apart, -⟩
    · have behind : offset = 65536 := by
        have bound := greatest.1.1
        have further := greatest.2 again
        omega
      subst behind
      rw [only] at found
      exact (Option.some.inj found).symm
    · rw [apart] at again
      exact again.elim
  obtain ⟨-, -, after, -⟩ := sequences changes
  have untouched : (zero.edits changes).read 0x0001 = 0xEF := by
    have loaded := before 0x0001
    exact (kept 0x0001 (by decide) (by decide)).trans (loaded.trans (by decide))
  exact ⟨last, (after 0x0000).trans (by decide), ⟨by decide, by decide⟩, untouched⟩

end Ram

end Sm83
