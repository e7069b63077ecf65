import Chip8.Memory

namespace Chip8
namespace Memory

variable {m m' : Memory} {start : Nat} {block : List UInt8} {a : Int}

theorem byteAt_natCast (m : Memory) {i : Nat} (h : i < size) : m.byteAt i = m.bytes[i] :=
  dif_pos ⟨Int.natCast_nonneg i, Int.ofNat_lt.mpr h⟩

theorem byteAt_of_outside (m : Memory) (outside : ¬(0 ≤ a ∧ a < size)) : m.byteAt a = 0 :=
  dif_neg outside

theorem eq_of_byteAt (same : ∀ a, m'.byteAt a = m.byteAt a) : m' = m := by
  refine Memory.ext (Vector.ext fun i h => ?_)
  rw [← m'.byteAt_natCast h, ← m.byteAt_natCast h]
  exact same i

theorem byteAt_overwrite (m : Memory) (fits : start + block.length ≤ size) {k : Nat} (h : k < block.length) :
    (m.overwrite start block).byteAt (start + k) = block[k] := by
  have inside : start + k < size := by omega
  rw [← Int.natCast_add, byteAt_natCast _ inside, getElem_overwrite, if_pos (Nat.le_add_right start k),
    Nat.add_sub_cancel_left, List.getD_eq_getElem?_getD, List.getElem?_eq_getElem h]
  rfl

theorem byteAt_overwrite_of_outside (m : Memory) (outside : a < start ∨ start + block.length ≤ a) :
    (m.overwrite start block).byteAt a = m.byteAt a := by
  by_cases inside : 0 ≤ a ∧ a < size
  case neg => rw [byteAt_of_outside _ inside, byteAt_of_outside _ inside]
  case pos =>
    obtain ⟨i, rfl⟩ := Int.eq_ofNat_of_zero_le inside.left
    have h : i < size := Int.ofNat_lt.mp inside.right
    rw [byteAt_natCast _ h, byteAt_natCast _ h, getElem_overwrite]
    split
    case isTrue =>
      rw [List.getD_eq_getElem?_getD, List.getElem?_eq_none (by omega)]
      rfl
    case isFalse => rfl

end Memory
end Chip8
