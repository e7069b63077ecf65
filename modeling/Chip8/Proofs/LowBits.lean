import Chip8.Proofs.Cycle

namespace Chip8

theorem Word.fields_emod (word : Int) : fields (word % 0x10000) = fields word := by
  ext1
  case family | x | y | n | nnn =>
    refine Fin.ext ?_
    simp only [fields, nibble, address]
    omega
  case nn =>
    have low : word % 0x10000 % 256 = word % 256 := by omega
    simp only [fields, lowByte, low]

theorem Instruction.ofWord?_emod (word : Int) : ofWord? (word % 0x10000) = ofWord? word :=
  congrArg ofFields? (Word.fields_emod word)

def Machine.withWord (word : Int) (m : Machine) : Machine :=
  { m with word }

def Fault.withWord (word : Int) : Fault → Fault
  | unknownWord _ => .unknownWord word
  | f             => f

def Execution.withWord (word : Int) : Execution → Execution
  | done m    => .done (m.withWord word)
  | fault f m => .fault (f.withWord word) (m.withWord word)
  | crash c m => .crash c (m.withWord word)

theorem Execution.word_withWord (word : Int) (e : Execution) : (e.withWord word).machine.word = word := by
  cases e <;> rfl

theorem Fault.withWord_of_ne_unknownWord {f : Fault} (known : ∀ w, f ≠ .unknownWord w) (word : Int) :
    f.withWord word = f := by
  cases f
  case unknownWord w => exact absurd rfl (known w)
  all_goals rfl

namespace Machine

variable {word : Int} {m : Machine}

theorem holds_withWord (condition : Condition) : condition.holds (m.withWord word) = condition.holds m := by
  cases condition <;> rfl

theorem lowestKey?_withWord : (m.withWord word).lowestKey? = m.lowestKey? :=
  rfl

theorem combine_withWord (op : Operation) (x y : Register) :
    (m.withWord word).combine op x y = (m.combine op x y).withWord word := by
  simp only [combine, withWord]
  cases op.carry? m.v[x] m.v[y] <;> rfl

theorem run_withWord_of_fault {i : Instruction} {f : Fault} (fault : i.fault? m = some f) :
    i.run (m.withWord word) = (i.run m).withWord word := by
  have fault' : i.fault? (m.withWord word) = some f := (i.fault?_congr rfl rfl rfl rfl).trans fault
  have known : ∀ w, f ≠ .unknownWord w := fun w isWord => Instruction.fault?_ne_unknownWord (isWord ▸ fault)
  rw [Instruction.run_of_fault fault, Instruction.run_of_fault fault', Execution.withWord,
    Fault.withWord_of_ne_unknownWord known]

theorem ret_withWord : (m.withWord word).ret = m.ret.withWord word := by
  by_cases closed : m.sp = 0
  case pos =>
    rw [ret, ret, if_pos closed, if_pos (show (m.withWord word).sp = 0 from closed)]
    rfl
  case neg =>
    rw [ret, ret, if_neg closed, if_neg (show ¬(m.withWord word).sp = 0 from closed)]
    simp only [withWord]
    cases Index.entry m.stack.size (m.sp - 1) <;> rfl

theorem call_withWord (target : Fin 4096) : (m.withWord word).call target = (m.call target).withWord word := by
  by_cases full : m.stack.size ≤ m.sp
  case pos =>
    rw [call, call, if_pos full, if_pos (show (m.withWord word).stack.size ≤ (m.withWord word).sp from full)]
    rfl
  case neg =>
    rw [call, call, if_neg full, if_neg (show ¬(m.withWord word).stack.size ≤ (m.withWord word).sp from full)]
    simp only [withWord]
    cases Index.entry m.stack.size m.sp <;> rfl

theorem drawSprite_withWord {x y : Register} {height : Fin 16} (known : Memory.blockFault? m.index height = none) :
    (m.withWord word).drawSprite x y height = (m.drawSprite x y height).withWord word := by
  cases m.draw_cases x y height with
  | fault block => cases known.symm.trans block
  | drawn _ read drew draw | refused _ read drew draw =>
    rw [draw]
    simp only [drawSprite, withWord, read, drew]
    rfl

theorem writeMemory_withWord {bytes : List UInt8} (known : Memory.blockFault? m.index bytes.length = none) :
    (m.withWord word).writeMemory bytes = (m.writeMemory bytes).withWord word := by
  simp only [writeMemory, withWord, m.memory.writeBlock_of_no_fault known]
  rfl

theorem loadRegisters_withWord {x : Register} (known : Memory.blockFault? m.index (x + 1) = none) :
    (m.withWord word).loadRegisters x = (m.loadRegisters x).withWord word := by
  cases m.load_cases x with
  | fault block => cases known.symm.trans block
  | loaded _ read load =>
    rw [load]
    simp only [loadRegisters, withWord, read]
    rfl

theorem run_withWord (i : Instruction) : i.run (m.withWord word) = (i.run m).withWord word := by
  cases i.fault_cases m with
  | fault fault => exact run_withWord_of_fault fault
  | noFault none run =>
    clear run
    cases i
    case ret => exact ret_withWord
    case call target => exact call_withWord target
    case draw => exact drawSprite_withWord none
    case storeDecimal x => exact writeMemory_withWord none
    case store x => exact writeMemory_withWord ((m.length_stored x).symm ▸ none)
    case load => exact loadRegisters_withWord none
    case combine op x y => exact congrArg Execution.done (combine_withWord op x y)
    case skip condition =>
      simp only [Instruction.run, holds_withWord]
      cases condition.holds m <;> rfl
    case awaitKey x =>
      simp only [Instruction.run, lowestKey?_withWord]
      cases m.lowestKey? <;> rfl
    all_goals rfl

theorem execute_emod (m : Machine) (word : Int) : m.execute word = (m.execute (word % 0x10000)).withWord word := by
  have advanced : m.advance word = (m.advance (word % 0x10000)).withWord word := rfl
  cases decode : Instruction.ofWord? word with
  | none =>
    have decode' := (Instruction.ofWord?_emod word).trans decode
    rw [execute_of_no_instruction decode, execute_of_no_instruction decode']
    rfl
  | some i =>
    have decode' := (Instruction.ofWord?_emod word).trans decode
    rw [execute_of_instruction decode, execute_of_instruction decode', advanced, run_withWord]

-- Of a word, only the low sixteen bits act: its fields are theirs, and carrying it out ends as carrying them out does,
-- on the same machine but for the word that is kept and that a fault of an unknown word names.
theorem low_bits_decide (m : Machine) (word : Int) :
    Word.fields word = Word.fields (word % 0x10000) ∧
      m.execute word = (m.execute (word % 0x10000)).withWord word ∧ (m.execute word).machine.word = word := by
  refine ⟨(Word.fields_emod word).symm, m.execute_emod word, ?_⟩
  rw [execute_emod]
  exact Execution.word_withWord word _

end Machine
end Chip8
