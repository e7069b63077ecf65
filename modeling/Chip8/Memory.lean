import Chip8.Fault
import Chip8.Font

namespace Chip8

def Memory.size : Nat := 4096

@[ext]
structure Memory where
  bytes : Vector UInt8 Memory.size
deriving DecidableEq

namespace Memory

def programStart : Nat := 0x200

def programLimit : Nat := size - programStart

def initial : Memory where
  bytes := ⟨(Font.bytes ++ List.replicate (size - Font.bytes.length) 0).toArray, by
    rw [List.size_toArray, List.length_append, List.length_replicate, Font.length_bytes]
    rfl⟩

-- A block is checked as a whole, before any byte of it is touched. A block without bytes lies everywhere.
def checkRange (start count : Int) : Except Fault Unit :=
  if count ≤ 0 then
    .ok ()
  else if start < 0 ∨ size ≤ start then
    .error (.memoryAccess start)
  else if size < start + count then
    .error (.memoryAccess size)
  else
    .ok ()

def byteAt (m : Memory) (address : Int) : UInt8 :=
  if h : 0 ≤ address ∧ address < size then m.bytes[address.toNat] else 0

def read (m : Memory) (address : Int) : Except Fault UInt8 :=
  if 0 ≤ address ∧ address < size then
    .ok (m.byteAt address)
  else
    .error (.memoryAccess address)

def readBlock (m : Memory) (start : Int) (count : Nat) : Except Fault (List UInt8) := do
  checkRange start count
  return (List.range count).map fun (k : Nat) => m.byteAt (start + k)

def overwrite (m : Memory) (start : Nat) : List UInt8 → Memory
  | []           => m
  | byte :: rest => overwrite ⟨m.bytes.setIfInBounds start byte⟩ (start + 1) rest

def writeBlock (m : Memory) (start : Int) (block : List UInt8) : Except Fault Memory := do
  checkRange start block.length
  return m.overwrite start.toNat block

def write (m : Memory) (address : Int) (value : UInt8) : Except Fault Memory :=
  if 0 ≤ address ∧ address < size then
    .ok (m.overwrite address.toNat [value])
  else
    .error (.memoryAccess address)

def clearPrograms (m : Memory) : Memory where
  bytes := ⟨(m.bytes.toList.take programStart ++ List.replicate programLimit 0).toArray, by
    simp only [List.size_toArray, List.length_append, List.length_take, Vector.length_toList,
      List.length_replicate]
    rfl⟩

theorem getElem_overwrite (m : Memory) (start : Nat) (block : List UInt8) (i : Nat) (h : i < size) :
    (m.overwrite start block).bytes[i] =
      if start ≤ i then block.getD (i - start) m.bytes[i] else m.bytes[i] := by
  induction block generalizing m start with
  | nil => simp [overwrite]
  | cons byte rest ih =>
    rw [overwrite, ih]
    rcases Nat.lt_trichotomy start i with before | rfl | past
    · rw [if_pos (by omega), if_pos (by omega), Vector.getElem_setIfInBounds_ne h (by omega),
        show i - start = (i - (start + 1)) + 1 by omega, List.getD_cons_succ]
    · rw [if_neg (by omega), if_pos (Nat.le_refl _), Vector.getElem_setIfInBounds_self,
        Nat.sub_self, List.getD_cons_zero]
    · rw [if_neg (by omega), if_neg (by omega), Vector.getElem_setIfInBounds_ne h (by omega)]

theorem getElem_clearPrograms (m : Memory) (i : Nat) (h : i < size) :
    m.clearPrograms.bytes[i] = if i < programStart then m.bytes[i] else 0 := by
  simp only [clearPrograms, Vector.getElem_mk, List.getElem_toArray, List.getElem_append,
    List.length_take, Vector.length_toList, List.getElem_take, Vector.getElem_toList,
    List.getElem_replicate]
  simp only [show min programStart size = programStart from rfl]
  split <;> rfl

def blockFault? (start count : Int) : Option Fault :=
  match checkRange start count with
  | .error f => some f
  | .ok _    => none

theorem checkRange_of_fault {start count : Int} {f : Fault} (h : blockFault? start count = some f) :
    checkRange start count = .error f := by
  simp only [blockFault?] at h
  split at h
  case h_1 hc => cases h; exact hc
  case h_2 => cases h

theorem checkRange_of_no_fault {start count : Int} (h : blockFault? start count = none) :
    checkRange start count = .ok () := by
  simp only [blockFault?] at h
  split at h
  case h_1 => cases h
  case h_2 hc => exact hc

theorem blockFault?_of_error {start count : Int} {f : Fault} (h : checkRange start count = .error f) :
    blockFault? start count = some f := by
  rw [blockFault?, h]

theorem blockFault?_of_ok {start count : Int} (h : checkRange start count = .ok ()) : blockFault? start count = none := by
  rw [blockFault?, h]

theorem blockFault?_eq_some {start count : Int} {f : Fault} (h : blockFault? start count = some f) :
    ∃ a, f = .memoryAccess a := by
  have hc := checkRange_of_fault h
  simp only [checkRange] at hc
  repeat' split at hc
  all_goals cases hc
  all_goals exact ⟨_, rfl⟩

variable {start : Int} {f : Fault}

theorem readBlock_of_fault {count : Nat} (m : Memory) (h : blockFault? start count = some f) :
    m.readBlock start count = .error f := by
  rw [readBlock, checkRange_of_fault h]
  rfl

theorem exists_readBlock {count : Nat} (m : Memory) (h : blockFault? start count = none) :
    ∃ block, m.readBlock start count = .ok block := by
  rw [readBlock, checkRange_of_no_fault h]
  exact ⟨_, rfl⟩

theorem blockFault?_of_readBlock {m : Memory} {count : Nat} {block : List UInt8}
    (read : m.readBlock start count = .ok block) : blockFault? start count = none := by
  cases fault : blockFault? start count with
  | none   => rfl
  | some f => cases read.symm.trans (m.readBlock_of_fault fault)

theorem eq_of_readBlock {m : Memory} {count : Nat} {block : List UInt8} (read : m.readBlock start count = .ok block) :
    block = (List.range count).map fun (k : Nat) => m.byteAt (start + k) := by
  have none := blockFault?_of_readBlock read
  rw [readBlock, checkRange_of_no_fault none] at read
  exact (Except.ok.inj read).symm

theorem writeBlock_of_fault {block : List UInt8} (m : Memory) (h : blockFault? start block.length = some f) :
    m.writeBlock start block = .error f := by
  rw [writeBlock, checkRange_of_fault h]
  rfl

theorem writeBlock_of_no_fault {block : List UInt8} (m : Memory) (h : blockFault? start block.length = none) :
    m.writeBlock start block = .ok (m.overwrite start.toNat block) := by
  rw [writeBlock, checkRange_of_no_fault h]
  rfl

end Memory
end Chip8
