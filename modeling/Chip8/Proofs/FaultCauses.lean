import Chip8.Proofs.Faults
import Chip8.Proofs.Words

namespace Chip8
namespace Memory

structure FirstOutside (start : Int) (count : Nat) (a : Int) : Prop where
  inBlock : start ≤ a ∧ a < start + count
  outside : ¬(0 ≤ a ∧ a < 4096)
  first   : ∀ b, start ≤ b → b < a → 0 ≤ b ∧ b < 4096

variable {start a : Int} {count : Nat}

theorem FirstOutside.eq_or_eq (h : FirstOutside start count a) : a = start ∨ a = 4096 := by
  have ⟨⟨_, _⟩, outside, first⟩ := h
  by_cases later : start < a
  case neg => omega
  case pos =>
    have := first (a - 1) (by omega) (by omega)
    omega

theorem FirstOutside.unique {b : Int} (h : FirstOutside start count a) (h' : FirstOutside start count b) :
    a = b := by
  by_contra ne
  rcases Int.lt_or_gt_of_ne ne with lt | gt
  · exact h.outside (h'.first a h.inBlock.left lt)
  · exact h'.outside (h.first b h'.inBlock.left gt)

theorem exists_firstOutside_of_fault {f : Fault} (h : blockFault? start count = some f) :
    ∃ a, f = .memoryAccess a ∧ FirstOutside start count a := by
  have checked := checkRange_of_fault h
  have size : (size : Int) = 4096 := rfl
  simp only [checkRange] at checked
  split at checked
  case isTrue => cases checked
  case isFalse some_bytes =>
    split at checked
    case isTrue starts =>
      cases checked
      exact ⟨start, rfl, by omega, by omega, by omega⟩
    case isFalse starts =>
      split at checked <;> cases checked
      exact ⟨4096, rfl, by omega, by omega, by omega⟩

theorem checkRange_eq_ok_iff {count : Int} :
    checkRange start count = .ok () ↔ count ≤ 0 ∨ 0 ≤ start ∧ start + count ≤ 4096 := by
  have size : (size : Int) = 4096 := rfl
  simp only [checkRange, size]
  grind

theorem inside_of_no_fault (h : blockFault? start count = none) (inBlock : start ≤ a ∧ a < start + count) :
    0 ≤ a ∧ a < 4096 := by
  have passes := checkRange_eq_ok_iff.mp (checkRange_of_no_fault h)
  omega

theorem blockFault?_eq_some_iff {f : Fault} :
    blockFault? start count = some f ↔ ∃ a, f = .memoryAccess a ∧ FirstOutside start count a := by
  refine ⟨exists_firstOutside_of_fault, ?_⟩
  rintro ⟨a, rfl, h⟩
  cases fault : blockFault? start count with
  | none => exact absurd (inside_of_no_fault fault h.inBlock) h.outside
  | some f =>
    obtain ⟨b, rfl, h'⟩ := exists_firstOutside_of_fault fault
    rw [h.unique h']

theorem exists_firstOutside (inBlock : start ≤ a ∧ a < start + count) (outside : ¬(0 ≤ a ∧ a < 4096)) :
    ∃ b, FirstOutside start count b := by
  cases fault : blockFault? start count with
  | none => exact absurd (inside_of_no_fault fault inBlock) outside
  | some f =>
    have ⟨b, _, first⟩ := exists_firstOutside_of_fault fault
    exact ⟨b, first⟩

theorem blockFault?_eq_none (inside : ∀ r < count, 0 ≤ start + r ∧ start + r < 4096) :
    blockFault? start count = none := by
  cases fault : blockFault? start count with
  | none => rfl
  | some f =>
    obtain ⟨a, _, first⟩ := blockFault?_eq_some_iff.mp fault
    have ⟨low, high⟩ := first.inBlock
    have here := inside (a - start).toNat (by omega)
    rw [show start + (a - start).toNat = a by omega] at here
    exact absurd here first.outside

end Memory

namespace Word

-- The number of bytes from the index register on that the word reads or writes: n at Dxyn, three at Fx33, and
-- x + 1 at Fx55 and Fx65.
def blockLength (w : UInt16) : Nat :=
  if w.toNat / 0x1000 = 0xD then
    w.toNat % 0x10
  else if w.toNat / 0x1000 = 0xF then
    if w.toNat % 0x100 = 0x33 then 3
    else if w.toNat % 0x100 = 0x55 ∨ w.toNat % 0x100 = 0x65 then w.toNat / 0x100 % 0x10 + 1
    else 0
  else
    0

theorem blockLength_lt (w : UInt16) : blockLength w < 4096 := by
  simp only [blockLength]
  repeat' split
  all_goals omega

end Word

namespace Instruction

def blockLength : Instruction → Nat
  | draw _ _ height => height
  | storeDecimal _  => 3
  | store x         => x + 1
  | load x          => x + 1
  | _               => 0

theorem blockLength_ofFields? (f : Fields) :
    (ofFields? f).elim 0 blockLength =
      if f.family = 0xD then f.n.val
      else if f.family = 0xF then
        if f.nn = 0x33 then 3 else if f.nn = 0x55 ∨ f.nn = 0x65 then f.x.val + 1 else 0
      else 0 := by
  simp only [ofFields?]
  split
  case h_16 =>
    have last : f.family = 0xF := by grind
    simp only [ofMisc?, last]
    split <;> simp_all [blockLength]
  case h_1 =>
    simp only [ofSystem?]
    split <;> simp_all [blockLength]
  case h_9 =>
    simp only [ofOperation?]
    split <;> simp_all [blockLength]
  case h_15 =>
    simp only [ofKeys?]
    split <;> simp_all [blockLength]
  all_goals simp_all [blockLength]

theorem blockLength_ofWord? (w : UInt16) : (ofWord? w.toNat).elim 0 blockLength = Word.blockLength w := by
  rw [ofWord?, blockLength_ofFields?]
  simp only [Fin.ext_iff, Word.val_family, Word.nn_eq_iff, Word.val_n, Word.val_x]
  rfl

variable {m : Machine} {i : Instruction} {a : Int}

theorem fault?_eq_blockFault? (notCall : ∀ target, i ≠ .call target) (notRet : i ≠ .ret) :
    i.fault? m = Memory.blockFault? m.index i.blockLength := by
  cases i
  case call target => exact absurd rfl (notCall target)
  case ret => exact absurd rfl notRet
  all_goals rfl

theorem fault?_eq_memoryAccess :
    i.fault? m = some (.memoryAccess a) ↔ Memory.FirstOutside m.index i.blockLength a := by
  cases i
  case ret | call =>
    constructor
    · simp only [fault?]
      split <;> simp
    · intro h
      have := h.inBlock
      simp only [blockLength] at this
      omega
  all_goals
    rw [fault?_eq_blockFault? (by simp) (by simp), Memory.blockFault?_eq_some_iff]
    simp only [Fault.memoryAccess.injEq, exists_eq_left']

theorem fault?_eq_stackOverflow :
    i.fault? m = some (.stackOverflow a) ↔ (∃ target, i = .call target) ∧ m.stack.size ≤ m.sp ∧ a = m.pc - 2 := by
  cases i
  case call | ret => simp [fault?, eq_comm]
  all_goals
    rw [fault?_eq_blockFault? (by simp) (by simp), Memory.blockFault?_eq_some_iff]
    simp

theorem fault?_eq_stackUnderflow :
    i.fault? m = some (.stackUnderflow a) ↔ i = .ret ∧ m.sp = 0 ∧ a = m.pc - 2 := by
  cases i
  case call | ret => simp [fault?, eq_comm]
  all_goals
    rw [fault?_eq_blockFault? (by simp) (by simp), Memory.blockFault?_eq_some_iff]
    simp

theorem blockLength_of_decode {w : UInt16} (decode : ofWord? w.toNat = some i) :
    i.blockLength = Word.blockLength w := by
  rw [← blockLength_ofWord?, decode]
  rfl

theorem exists_of_blockLength_pos {w : UInt16} (h : 0 < Word.blockLength w) :
    ∃ i, ofWord? w.toNat = some i ∧ i.blockLength = Word.blockLength w := by
  cases decode : ofWord? w.toNat with
  | none =>
    rw [← blockLength_ofWord?, decode] at h
    exact absurd h (Nat.lt_irrefl 0)
  | some i => exact ⟨i, rfl, blockLength_of_decode decode⟩

end Instruction

theorem Word.fetch_of_outside {size : Nat} (bytes : Vector UInt8 size) {a : Int} (h : a < 0 ∨ size ≤ a + 1) :
    Word.fetch bytes a = .error (.memoryAccess a) := by
  rw [Word.fetch, dif_neg (by omega)]

theorem Word.outside_of_fetch {size : Nat} {bytes : Vector UInt8 size} {a : Int} {f : Fault}
    (h : Word.fetch bytes a = .error f) : a < 0 ∨ size ≤ a + 1 := by
  by_contra inside
  rw [Word.fetch, dif_pos (by omega)] at h
  cases h

namespace Machine

variable {m : Machine} {word : Option UInt16} {f : Fault}

inductive Cause (m : Machine) : Option UInt16 → Fault → Prop
  | unread (outside : m.pc < 0 ∨ 4096 ≤ m.pc + 1) : Cause m none (.memoryAccess m.pc)
  | block {w : UInt16} {a : Int} (fetch : Word.fetch m.memory.bytes m.pc = .ok w)
    (first : Memory.FirstOutside m.index (Word.blockLength w) a) : Cause m w (.memoryAccess a)
  | overflow {w : UInt16} (fetch : Word.fetch m.memory.bytes m.pc = .ok w) (isCall : Word.IsCall w)
    (full : m.stack.size ≤ m.sp) : Cause m w (.stackOverflow m.pc)
  | underflow {w : UInt16} (fetch : Word.fetch m.memory.bytes m.pc = .ok w) (isReturn : Word.IsReturn w)
    (closed : m.sp = 0) : Cause m w (.stackUnderflow m.pc)

theorem Stuck.cause (h : m.Stuck word f) : m.Cause word f := by
  cases h with
  | unread fetch =>
    cases Word.fetch_eq_error fetch
    exact .unread (Word.outside_of_fetch fetch)
  | @fault w i f fetch decode fault =>
    cases f with
    | unknownWord w' => exact absurd fault Instruction.fault?_ne_unknownWord
    | memoryAccess a =>
      have first := Instruction.fault?_eq_memoryAccess.mp fault
      rw [Instruction.blockLength_of_decode decode] at first
      exact .block fetch first
    | stackOverflow a =>
      obtain ⟨⟨target, rfl⟩, full, rfl⟩ := Instruction.fault?_eq_stackOverflow.mp fault
      have pc : (m.advance w.toNat).pc - 2 = m.pc := Int.add_sub_cancel m.pc 2
      rw [pc]
      exact .overflow fetch (Instruction.exists_call_iff.mp ⟨target, decode⟩) full
    | stackUnderflow a =>
      obtain ⟨rfl, closed, rfl⟩ := Instruction.fault?_eq_stackUnderflow.mp fault
      have pc : (m.advance w.toNat).pc - 2 = m.pc := Int.add_sub_cancel m.pc 2
      rw [pc]
      exact .underflow fetch (Instruction.ofWord?_eq_ret_iff.mp decode) closed

theorem Cause.stuck (h : m.Cause word f) : m.Stuck word f := by
  cases h with
  | unread outside => exact .unread (Word.fetch_of_outside _ outside)
  | @block w a fetch first =>
    have some_bytes : 0 < Word.blockLength w := by
      have := first.inBlock
      omega
    obtain ⟨i, decode, length⟩ := Instruction.exists_of_blockLength_pos some_bytes
    exact .fault fetch decode (Instruction.fault?_eq_memoryAccess.mpr (length ▸ first))
  | @overflow w fetch isCall full =>
    have ⟨target, decode⟩ := Instruction.exists_call_iff.mpr isCall
    refine .fault fetch decode (Instruction.fault?_eq_stackOverflow.mpr ⟨⟨target, rfl⟩, full, ?_⟩)
    exact (Int.add_sub_cancel m.pc 2).symm
  | @underflow w fetch isReturn closed =>
    have decode := Instruction.ofWord?_eq_ret_iff.mpr isReturn
    refine .fault fetch decode (Instruction.fault?_eq_stackUnderflow.mpr ⟨rfl, closed, ?_⟩)
    exact (Int.add_sub_cancel m.pc 2).symm

def Reports (m : Machine) (word : Option UInt16) (f : Fault) : Prop :=
  ∃ c, m.step.result = .ok c ∧ c.word = word ∧ c.fault = some f

theorem Cause.reports (h : m.Cause word f) : m.Reports word f :=
  ⟨_, congrArg Turn.result h.stuck.step, rfl, rfl⟩

theorem halting_status_iff {s : Status} (halts : s.halts) :
    (∃ c, m.step.result = .ok c ∧ c.status = s) ↔ ∃ word f, m.Cause word f ∧ f.status = s := by
  constructor
  case mp =>
    rintro ⟨c, result, status⟩
    cases fault : c.fault with
    | none =>
      simp only [Cycle.status, fault] at status
      exact absurd halts (status ▸ Bool.false_ne_true)
    | some f =>
      simp only [Cycle.status, fault] at status
      rcases stuck_or_unknown result fault with stuck | ⟨_, _, _, rfl, _⟩
      · exact ⟨c.word, f, stuck.cause, status⟩
      · exact absurd halts (status ▸ Bool.false_ne_true)
  case mpr =>
    rintro ⟨word, f, cause, status⟩
    obtain ⟨c, result, _, fault⟩ := cause.reports
    refine ⟨c, result, ?_⟩
    simp only [Cycle.status, fault, status]

theorem exists_drawSprite_zero (m : Machine) (x y : Register) : ∃ m', m.drawSprite x y 0 = .done m' :=
  ⟨_, rfl⟩

theorem step_of_flat_draw {w : UInt16} (fetch : Word.fetch m.memory.bytes m.pc = .ok w)
    (isDraw : w.toNat / 0x1000 = 0xD) (flat : w.toNat % 0x10 = 0) :
    ∃ c, m.step.result = .ok c ∧ c.status = .normal := by
  have spells := Fields.spells_draw ((Word.val_family w).trans isDraw)
  have height : (Word.fields w.toNat).n = 0 := Fin.ext ((Word.val_n w).trans flat)
  rw [height] at spells
  have ⟨m', draw⟩ := (m.advance w.toNat).exists_drawSprite_zero (Word.fields w.toNat).x (Word.fields w.toNat).y
  rw [step_of_done fetch ((execute_of_spells spells).trans draw)]
  exact ⟨_, rfl, rfl⟩

theorem status_of_last_block {w : UInt16} (fetch : Word.fetch m.memory.bytes m.pc = .ok w)
    (some_bytes : 0 < Word.blockLength w) (last : m.index + Word.blockLength w = 4096) {c : Cycle}
    (result : m.step.result = .ok c) : c.status = .normal := by
  cases fault : c.fault with
  | none => simp only [Cycle.status, fault]
  | some f =>
    exfalso
    rcases stuck_or_unknown result fault with stuck | ⟨w', _, fetch', rfl, execute, _⟩
    case inl =>
      have short := Word.blockLength_lt w
      have cause := stuck.cause
      generalize c.word = word at cause
      cases cause with
      | unread outside => cases fetch.symm.trans (Word.fetch_of_outside _ outside)
      | block fetch' first =>
        cases fetch.symm.trans fetch'
        have ⟨_, outside, _⟩ := first
        omega
      | overflow fetch' isCall =>
        cases fetch.symm.trans fetch'
        simp [Word.blockLength, show w.toNat / 0x1000 = 2 from isCall] at some_bytes
      | underflow fetch' isReturn =>
        cases fetch.symm.trans fetch'
        simp [Word.blockLength, isReturn.left] at some_bytes
    case inr =>
      cases fetch.symm.trans fetch'
      obtain ⟨i, decode, _⟩ := Instruction.exists_of_blockLength_pos some_bytes
      rw [execute_of_instruction decode] at execute
      exact Instruction.fault?_ne_unknownWord (Instruction.fault?_of_run execute)

-- Stack and memory faults have exactly their causes, and are reported with the address of the instruction
-- or the first address outside memory. What a sprite looks like on the display makes no difference, sprites
-- without rows never fail, and neither do blocks that end with the last byte of memory.
theorem stack_and_memory_faults_iff (sp : m.sp ≤ m.stack.size) :
    ((∃ c, m.step.result = .ok c ∧ c.status = .memoryFault) ↔
      (m.pc < 0 ∨ 4096 ≤ m.pc + 1) ∨
      ∃ w, Word.fetch m.memory.bytes m.pc = .ok w ∧
        ∃ a, (m.index ≤ a ∧ a < m.index + Word.blockLength w) ∧ ¬(0 ≤ a ∧ a < 4096)) ∧
    ((∃ c, m.step.result = .ok c ∧ c.status = .stackFault) ↔
      ∃ w, Word.fetch m.memory.bytes m.pc = .ok w ∧
        (Word.IsCall w ∧ m.sp = m.stack.size ∨ Word.IsReturn w ∧ m.sp = 0)) ∧
    ((m.pc < 0 ∨ 4096 ≤ m.pc + 1) → m.Reports none (.memoryAccess m.pc)) ∧
    ∀ w, Word.fetch m.memory.bytes m.pc = .ok w →
      (∀ a, Memory.FirstOutside m.index (Word.blockLength w) a →
        (a = m.index ∨ a = 4096) ∧ m.Reports w (.memoryAccess a)) ∧
      (Word.IsCall w → m.sp = m.stack.size → m.Reports w (.stackOverflow m.pc)) ∧
      (Word.IsReturn w → m.sp = 0 → m.Reports w (.stackUnderflow m.pc)) ∧
      (w.toNat / 0x1000 = 0xD →
        (m.edge = .clip ∧ (m.display.width ≤ m.v[(Word.fields w.toNat).x].toNat ∨
          m.display.height ≤ m.v[(Word.fields w.toNat).y].toNat) →
          ∀ a, Memory.FirstOutside m.index (w.toNat % 0x10) a → m.Reports w (.memoryAccess a)) ∧
        (w.toNat % 0x10 = 0 → ∃ c, m.step.result = .ok c ∧ c.status = .normal)) ∧
      (0 < Word.blockLength w → m.index + Word.blockLength w = 4096 →
        ∀ c, m.step.result = .ok c → c.status = .normal) := by
  refine ⟨?memory, ?stack, fun outside => (Cause.unread outside).reports, fun w fetch => ⟨?block, ?overflow,
    ?underflow, fun isDraw => ⟨?clipped, step_of_flat_draw fetch isDraw⟩,
    fun some_bytes last c => status_of_last_block fetch some_bytes last⟩⟩
  case memory =>
    rw [halting_status_iff rfl]
    constructor
    · rintro ⟨_, _, cause, status⟩
      cases cause with
      | unread outside => exact .inl outside
      | block fetch first => exact .inr ⟨_, fetch, _, first.inBlock, first.outside⟩
      | overflow | underflow => cases status
    · rintro (outside | ⟨w, fetch, a, inBlock, outside⟩)
      · exact ⟨_, _, .unread outside, rfl⟩
      · have ⟨b, first⟩ := Memory.exists_firstOutside inBlock outside
        exact ⟨_, _, .block fetch first, rfl⟩
  case stack =>
    rw [halting_status_iff rfl]
    constructor
    · rintro ⟨_, _, cause, status⟩
      cases cause with
      | unread | block => cases status
      | overflow fetch isCall full => exact ⟨_, fetch, .inl ⟨isCall, Int.le_antisymm sp full⟩⟩
      | underflow fetch isReturn closed => exact ⟨_, fetch, .inr ⟨isReturn, closed⟩⟩
    · rintro ⟨w, fetch, ⟨isCall, full⟩ | ⟨isReturn, closed⟩⟩
      · exact ⟨_, _, .overflow fetch isCall (Int.le_of_eq full.symm), rfl⟩
      · exact ⟨_, _, .underflow fetch isReturn closed, rfl⟩
  case block => exact fun a first => ⟨first.eq_or_eq, (Cause.block fetch first).reports⟩
  case overflow => exact fun isCall full => (Cause.overflow fetch isCall (Int.le_of_eq full.symm)).reports
  case underflow => exact fun isReturn closed => (Cause.underflow fetch isReturn closed).reports
  case clipped =>
    intro _ a first
    have length : Word.blockLength w = w.toNat % 0x10 := if_pos isDraw
    exact (Cause.block fetch (length ▸ first)).reports

def drawsPastMemory : Machine :=
  (powerOn .standard .clip 16 (.cycle #[]) none).after
    [.load [0xAF, 0xFF, 0x60, 0xFF, 0xD0, 0x02], .step, .step]

theorem clipped_sprite_past_memory_faults :
    drawsPastMemory.sp ≤ drawsPastMemory.stack.size ∧
      Word.fetch drawsPastMemory.memory.bytes drawsPastMemory.pc = .ok 0xD002 ∧
      drawsPastMemory.display.width ≤ drawsPastMemory.v[(0 : Register)].toNat ∧
      drawsPastMemory.Reports (some 0xD002) (.memoryAccess 4096) := by
  have ⟨sp, fetch, right, clip, index⟩ : drawsPastMemory.sp ≤ drawsPastMemory.stack.size ∧
      Word.fetch drawsPastMemory.memory.bytes drawsPastMemory.pc = .ok 0xD002 ∧
      drawsPastMemory.display.width ≤ drawsPastMemory.v[(0 : Register)].toNat ∧
      drawsPastMemory.edge = .clip ∧ drawsPastMemory.index = 0xFFF := by
    decide +kernel
  have first : Memory.FirstOutside drawsPastMemory.index 2 4096 := by
    rw [index]
    exact ⟨by decide, by decide, by omega⟩
  have ⟨_, _, _, at_word⟩ := stack_and_memory_faults_iff sp
  have ⟨_, _, _, draw, _⟩ := at_word 0xD002 fetch
  exact ⟨sp, fetch, right, (draw (by decide)).left ⟨clip, .inl right⟩ 4096 first⟩

end Machine
end Chip8
