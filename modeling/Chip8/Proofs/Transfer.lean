import Chip8.Proofs.Blocks
import Chip8.Proofs.Effects

namespace Chip8
namespace Machine

structure Writes (m : Machine) (bytes : List UInt8) (m' : Machine) : Prop where
  block     : ∀ (k : Nat) (h : k < bytes.length), m'.memory.byteAt (m.index + k) = bytes[k]
  others    : ∀ a : Int, a < m.index ∨ m.index + bytes.length ≤ a → m'.memory.byteAt a = m.memory.byteAt a
  registers : m'.v = m.v
  index     : m'.index = m.index

structure Stores (m : Machine) (x : Register) (m' : Machine) : Prop where
  block     : ∀ r ≤ x, m'.memory.byteAt (m.index + r.val) = m.v.get r
  others    : ∀ a : Int, a < m.index ∨ m.index + x.val < a → m'.memory.byteAt a = m.memory.byteAt a
  registers : m'.v = m.v
  index     : m'.index = m.index

structure Loads (m : Machine) (x : Register) (m' : Machine) : Prop where
  block  : ∀ r ≤ x, m'.v.get r = m.memory.byteAt (m.index + r.val)
  others : ∀ r, x < r → m'.v.get r = m.v.get r
  memory : m'.memory = m.memory
  index  : m'.index = m.index

def Mirrors (m : Machine) (x : Register) : Prop :=
  ∀ r ≤ x, m.memory.byteAt (m.index + r.val) = m.v.get r

variable {m m' m'' : Machine} {x : Register} {word : Int}

section

variable (low : 0 ≤ m.index)

include low

theorem no_fault_of_inside {count : Nat} (high : m.index + count ≤ 4096) : Memory.blockFault? m.index count = none :=
  Memory.blockFault?_eq_none fun r _ => by omega

theorem exists_written {bytes : List UInt8} (high : m.index + bytes.length ≤ 4096) :
    ∃ m', m.writeMemory bytes = .done m' ∧ m.Writes bytes m' := by
  cases m.write_cases bytes with
  | fault fails => cases (no_fault_of_inside low high).symm.trans fails
  | written _ write =>
    have start : (m.index.toNat : Int) = m.index := Int.toNat_of_nonneg low
    have inside : m.index.toNat + bytes.length ≤ Memory.size := by
      simp only [Memory.size]
      omega
    refine ⟨_, write, fun k h => ?_, fun a outside => ?_, rfl, rfl⟩
    · have read := m.memory.byteAt_overwrite inside h
      rw [start] at read
      exact read
    · rw [← start] at outside
      exact m.memory.byteAt_overwrite_of_outside outside

theorem exists_stored (spells : (Word.fields word).Spells (.store x)) (high : m.index + x.val < 4096) :
    ∃ m', m.execute word = .done m' ∧ m.Stores x m' := by
  have length := m.length_stored x
  have room : m.index + (m.v.toList.take (x + 1)).length ≤ 4096 := by omega
  obtain ⟨m', write, writes⟩ := exists_written (m := m.advance word) low room
  refine ⟨m', (execute_of_spells spells).trans write, fun r le => ?_, fun a outside => ?_, writes.registers, writes.index⟩
  · have here : r.val < (m.v.toList.take (x + 1)).length := by
      rw [length]
      exact Nat.lt_succ_of_le le
    refine (writes.block r.val here).trans ?_
    rw [List.getElem_take]
    rfl
  · refine writes.others a ?_
    show a < m.index ∨ m.index + (m.v.toList.take (x + 1)).length ≤ a
    omega

theorem exists_loaded (spells : (Word.fields word).Spells (.load x)) (high : m.index + x.val < 4096) :
    ∃ m', m.execute word = .done m' ∧ m.Loads x m' := by
  have none : Memory.blockFault? m.index (x + 1) = none := @no_fault_of_inside m low (x + 1) (by omega)
  cases (m.advance word).load_cases x with
  | fault fails => cases none.symm.trans fails
  | @loaded bytes _ read load =>
    have bytes_eq := Memory.eq_of_readBlock read
    refine ⟨_, (execute_of_spells spells).trans load, fun r le => ?_, fun r above => ?_, rfl, rfl⟩
    all_goals refine (Vector.getElem_ofFn r.isLt).trans ?_
    · have here : r.val < x.val + 1 := Nat.lt_succ_of_le le
      rw [List.getD_eq_getElem?_getD, bytes_eq, List.getElem?_map, List.getElem?_range here]
      rfl
    · have past : bytes.length ≤ r.val := Memory.length_of_readBlock read ▸ above
      rw [List.getD_eq_getElem?_getD, List.getElem?_eq_none past]
      rfl

end

theorem Stores.load_back {v : Registers} (stores : m.Stores x m') (loads : ({ m' with v }).Loads x m'') :
    ∀ r ≤ x, m''.v.get r = m.v.get r := by
  intro r le
  calc m''.v.get r
    _ = m'.memory.byteAt (m'.index + r.val) := loads.block r le
    _ = m'.memory.byteAt (m.index + r.val)  := by rw [stores.index]
    _ = m.v.get r                           := stores.block r le

theorem Stores.mirrors (stores : m.Stores x m') : m'.Mirrors x := by
  intro r le
  rw [stores.index, stores.registers]
  exact stores.block r le

theorem Loads.mirrors (loads : m.Loads x m') : m'.Mirrors x := by
  intro r le
  rw [loads.index, loads.memory]
  exact (loads.block r le).symm

theorem exists_register {start a : Int} (inBlock : start ≤ a ∧ a ≤ start + x.val) : ∃ r ≤ x, a = start + r.val := by
  have := x.isLt
  refine ⟨⟨(a - start).toNat, by omega⟩, ?_, ?_⟩
  · show (a - start).toNat ≤ x.val
    omega
  · show a = start + (a - start).toNat
    omega

-- Once memory mirrors the registers, neither a store nor a load changes anything.
theorem Mirrors.memory_eq (mirrors : m.Mirrors x) (stores : m.Stores x m') : m'.memory = m.memory := by
  refine Memory.eq_of_byteAt fun a => ?_
  by_cases inBlock : m.index ≤ a ∧ a ≤ m.index + x.val
  case pos =>
    obtain ⟨r, le, rfl⟩ := exists_register inBlock
    exact (stores.block r le).trans (mirrors r le).symm
  case neg => exact stores.others a (by omega)

theorem Mirrors.registers_eq (mirrors : m.Mirrors x) (loads : m.Loads x m') : m'.v = m.v := by
  refine Vector.ext fun i h => ?_
  let r : Register := ⟨i, h⟩
  show m'.v.get r = m.v.get r
  by_cases le : r ≤ x
  case pos => exact (loads.block r le).trans (mirrors r le)
  case neg => exact loads.others r (Fin.not_le.mp le)

theorem decimalDigits_eq (b : UInt8) :
    ∃ hundreds tens ones : UInt8, decimalDigits b = [hundreds, tens, ones] ∧
      (hundreds.toNat ≤ 9 ∧ tens.toNat ≤ 9 ∧ ones.toNat ≤ 9) ∧
      100 * hundreds.toNat + 10 * tens.toNat + ones.toNat = b.toNat := by
  have := b.toNat_lt
  refine ⟨b / 100, b / 10 % 10, b % 10, rfl, ?_⟩
  simp only [UInt8.toNat_div, UInt8.toNat_mod, UInt8.reduceToNat]
  omega

theorem exists_digits_stored (spells : (Word.fields word).Spells (.storeDecimal x)) (low : 0 ≤ m.index)
    (high : m.index + 2 < 4096) : ∃ m', m.execute word = .done m' ∧ m.Writes (decimalDigits (m.v.get x)) m' := by
  have room : m.index + (decimalDigits (m.v.get x)).length ≤ 4096 := by
    show m.index + 3 ≤ 4096
    omega
  obtain ⟨m', write, writes⟩ := exists_written (m := m.advance word) low room
  exact ⟨m', (execute_of_spells spells).trans write, writes.block, writes.others, writes.registers, writes.index⟩

theorem Writes.loaded {bytes : List UInt8} {k : Nat} {b : UInt8} (writes : m.Writes bytes m') (loads : m'.Loads x m'')
    (here : bytes[k]? = some b) (le : k ≤ x.val) : m''.v[k]? = some b := by
  obtain ⟨h, rfl⟩ := List.getElem?_eq_some_iff.mp here
  have inside : k < 16 := by omega
  let r : Register := ⟨k, inside⟩
  rw [Vector.getElem?_eq_getElem inside]
  refine congrArg some ?_
  calc m''.v.get r
    _ = m'.memory.byteAt (m'.index + k) := loads.block r le
    _ = m'.memory.byteAt (m.index + k)  := by rw [writes.index]
    _ = bytes[k]                        := writes.block k h

-- A store puts the registers up to x in memory and changes no other byte, and a load changes the registers up to x and
-- no other part of the machine but the program counter and the last word. Each undoes the other, and done twice does
-- what it does once. The digits of a byte, once stored, can be loaded into the first three registers, and no memory
-- around them has changed.
theorem transfers_undo_each_other (m : Machine) :
    (∀ (x : Register) (storing loading : Int),
      (Word.fields storing).Spells (.store x) → (Word.fields loading).Spells (.load x) →
      0 ≤ m.index → m.index + x.val < 4096 →
      ∃ stored loaded, m.execute storing = .done stored ∧ m.Stores x stored ∧
        m.execute loading = .done loaded ∧ m.Loads x loaded ∧
        (∀ v : Registers, ∃ back, ({ stored with v }).execute loading = .done back ∧
          (∀ r ≤ x, back.v.get r = m.v.get r) ∧ ∀ r, x < r → back.v.get r = v.get r) ∧
        (∃ back, loaded.execute storing = .done back ∧ back.memory = m.memory) ∧
        (∃ again, stored.execute storing = .done again ∧ again.memory = stored.memory ∧ again.v = stored.v) ∧
        ∃ again, loaded.execute loading = .done again ∧ again.memory = loaded.memory ∧ again.v = loaded.v) ∧
    ∀ (x y : Register) (storing loading : Int),
      (Word.fields storing).Spells (.storeDecimal x) → (Word.fields loading).Spells (.load y) → y.val = 2 →
      0 ≤ m.index → m.index + 2 < 4096 →
      ∃ stored loaded, m.execute storing = .done stored ∧ stored.execute loading = .done loaded ∧
        (∃ hundreds tens ones : UInt8,
          (loaded.v[0]? = some hundreds ∧ loaded.v[1]? = some tens ∧ loaded.v[2]? = some ones) ∧
          (hundreds.toNat ≤ 9 ∧ tens.toNat ≤ 9 ∧ ones.toNat ≤ 9) ∧
          100 * hundreds.toNat + 10 * tens.toNat + ones.toNat = (m.v.get x).toNat) ∧
        ∀ a : Int, a < m.index ∨ m.index + 2 < a → loaded.memory.byteAt a = m.memory.byteAt a := by
  refine ⟨fun x storing loading isStore isLoad low high => ?registers,
    fun x y storing loading isStore isLoad third low high => ?digits⟩
  case registers =>
    obtain ⟨stored, store, stores⟩ := exists_stored low isStore high
    obtain ⟨loaded, load, loads⟩ := exists_loaded low isLoad high
    have low' := stores.index ▸ low
    have high' := stores.index ▸ high
    have low'' := loads.index ▸ low
    have high'' := loads.index ▸ high
    refine ⟨stored, loaded, store, stores, load, loads, fun v => ?_, ?_, ?_, ?_⟩
    · obtain ⟨back, load', loads'⟩ := exists_loaded (m := { stored with v }) low' isLoad high'
      exact ⟨back, load', stores.load_back loads', loads'.others⟩
    · obtain ⟨back, store', stores'⟩ := exists_stored low'' isStore high''
      exact ⟨back, store', (loads.mirrors.memory_eq stores').trans loads.memory⟩
    · obtain ⟨again, store', stores'⟩ := exists_stored low' isStore high'
      exact ⟨again, store', stores.mirrors.memory_eq stores', stores'.registers⟩
    · obtain ⟨again, load', loads'⟩ := exists_loaded low'' isLoad high''
      exact ⟨again, load', loads'.memory, loads.mirrors.registers_eq loads'⟩
  case digits =>
    obtain ⟨stored, store, writes⟩ := exists_digits_stored isStore low high
    have high' : stored.index + y.val < 4096 := by
      rw [writes.index, third]
      exact high
    obtain ⟨loaded, load, loads⟩ := exists_loaded (writes.index ▸ low) isLoad high'
    obtain ⟨hundreds, tens, ones, digits, small, sum⟩ := decimalDigits_eq (m.v.get x)
    rw [digits] at writes
    refine ⟨stored, loaded, store, load, ⟨hundreds, tens, ones, ⟨?_, ?_, ?_⟩, small, sum⟩, fun a outside => ?_⟩
    · exact writes.loaded loads (k := 0) rfl (by omega)
    · exact writes.loaded loads (k := 1) rfl (by omega)
    · exact writes.loaded loads (k := 2) rfl (by omega)
    · rw [loads.memory]
      refine writes.others a ?_
      show a < m.index ∨ m.index + 3 ≤ a
      omega

theorem last_bytes_hold_digits :
    let m := (holding [0xAF, 0xFD, 0x62, 0xEA]).after [.step, .step]
    let x := (Word.fields 0xF265).x
    (0 ≤ m.index ∧ m.index + x.val < 4096 ∧ m.v.get x = 234) ∧
      (∃ stored back, m.execute 0xF255 = .done stored ∧
        ({ stored with v := Vector.replicate 16 0 }).execute 0xF265 = .done back ∧ back.v.get x = 234) ∧
      ∃ stored loaded, m.execute 0xF233 = .done stored ∧ stored.execute 0xF265 = .done loaded ∧
        loaded.v[0]? = some 2 ∧ loaded.v[1]? = some 3 ∧ loaded.v[2]? = some 4 := by
  intro m x
  have ⟨low, high, held⟩ : 0 ≤ m.index ∧ m.index + x.val < 4096 ∧ m.v.get x = 234 := by decide +kernel
  obtain ⟨registers, digits⟩ := transfers_undo_each_other m
  obtain ⟨stored, _, store, _, _, _, restores, _⟩ :=
    registers x 0xF255 0xF265 ⟨by decide, rfl⟩ ⟨by decide, rfl⟩ low high
  obtain ⟨back, load, restored, _⟩ := restores (Vector.replicate 16 0)
  obtain ⟨stored', loaded, store', load', ⟨hundreds, tens, ones, ⟨first, second, third⟩, small, sum⟩, _⟩ :=
    digits x x 0xF233 0xF265 ⟨by decide, rfl⟩ ⟨by decide, rfl⟩ rfl low high
  have byte : (m.v.get x).toNat = 234 := congrArg UInt8.toNat held
  refine ⟨⟨low, high, held⟩, ⟨stored, back, store, load, (restored x (Fin.le_refl x)).trans held⟩,
    stored', loaded, store', load', ?_, ?_, ?_⟩
  · rw [first, show hundreds = 2 from UInt8.toNat_inj.mp (show hundreds.toNat = 2 by omega)]
  · rw [second, show tens = 3 from UInt8.toNat_inj.mp (show tens.toNat = 3 by omega)]
  · rw [third, show ones = 4 from UInt8.toNat_inj.mp (show ones.toNat = 4 by omega)]

end Machine
end Chip8
