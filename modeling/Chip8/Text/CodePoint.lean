namespace Chip8

-- A code point, which may be one half of a surrogate pair.
structure CodePoint where
  val : Nat
  isLt : val < 0x110000
deriving DecidableEq

namespace CodePoint

theorem toNat_lt (c : Char) : c.toNat < 0x110000 := by
  rcases c.valid with low | ⟨_, high⟩
  · exact Nat.lt_trans low (by decide)
  · exact high

def ofChar (c : Char) : CodePoint :=
  ⟨c.toNat, toNat_lt c⟩

def IsSurrogate (p : CodePoint) : Prop :=
  0xD800 ≤ p.val ∧ p.val < 0xE000

instance (p : CodePoint) : Decidable p.IsSurrogate :=
  inferInstanceAs (Decidable (_ ∧ _))

def char? (p : CodePoint) : Option Char :=
  if p.IsSurrogate then none else some (Char.ofNat p.val)

def ofString (s : String) : List CodePoint :=
  s.toList.map ofChar

end CodePoint
end Chip8
