namespace Chip8

inductive IndexError where
  | outside
  | wide
deriving DecidableEq

namespace Index

def Fits (k : Int) : Prop :=
  -0x8000000000000000 ≤ k ∧ k < 0x8000000000000000

instance (k : Int) : Decidable (Fits k) :=
  inferInstanceAs (Decidable (_ ∧ _))

def wideMessage : String := "cannot fit 'int' into an index-sized integer"

-- An index below zero counts back from the end of the sequence.
def entry (size : Nat) (k : Int) : Except IndexError (Fin size) :=
  if h : -(size : Int) ≤ k ∧ k < size then
    .ok ⟨(k % size).toNat, by
      have : 0 ≤ k % size := Int.emod_nonneg k (by omega)
      have : k % size < size := Int.emod_lt_of_pos k (by omega)
      omega⟩
  else if Fits k then
    .error .outside
  else
    .error .wide

theorem entry_val {size : Nat} (i : Fin size) : entry size i.val = .ok i := by
  have := i.isLt
  have h : -(size : Int) ≤ i.val ∧ (i.val : Int) < size := by omega
  simp [entry, Int.emod_eq_of_lt (Int.natCast_nonneg i.val) h.2]

theorem entry_eq_ok_iff {size : Nat} {k : Int} :
    (∃ i, entry size k = .ok i) ↔ -(size : Int) ≤ k ∧ k < size := by
  unfold entry
  constructor
  · rintro ⟨i, hi⟩
    split at hi
    · assumption
    · split at hi <;> cases hi
  · intro h
    exact ⟨_, dif_pos h⟩

end Index

namespace IndexError

def readMessage : IndexError → String
  | outside => "list index out of range"
  | wide    => Index.wideMessage

def writeMessage : IndexError → String
  | outside => "list assignment index out of range"
  | wide    => Index.wideMessage

end IndexError
end Chip8
