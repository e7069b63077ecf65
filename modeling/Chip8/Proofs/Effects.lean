import Chip8.Proofs.CallStack
import Chip8.Proofs.FaultCauses

namespace Chip8

inductive Timer where
  | delay
  | sound

namespace Timer

def part : Timer → Part
  | delay => .delay
  | sound => .sound

def value (m : Machine) : Timer → UInt8
  | delay => m.delay
  | sound => m.sound

def loadByte : Timer → UInt8
  | delay => 0x15
  | sound => 0x18

end Timer

namespace Fields

-- The words with the register as their target, those that leave a flag, and the load of all registers up to x.
def CanChange (f : Fields) (r : Register) : Prop :=
  r = f.x ∧ (f.family.val ∈ [0x6, 0x7, 0x8, 0xC] ∨ f.Is 0xF 0x07 ∨ f.Is 0xF 0x0A) ∨
  r = Machine.flag ∧ (f.family.val = 0x8 ∧ f.n.val ∈ [0x4, 0x5, 0x6, 0x7, 0xE] ∨ f.family.val = 0xD ∨ f.Is 0xF 0x1E) ∨
  r ≤ f.x ∧ f.Is 0xF 0x65

def Opposite (f g : Fields) : Prop :=
  f.family.val = 0x3 ∧ g.family.val = 0x4 ∧ f.x = g.x ∧ f.nn = g.nn ∨
  f.family.val = 0x5 ∧ g.family.val = 0x9 ∧ f.x = g.x ∧ f.y = g.y ∨
  f.Is 0xE 0x9E ∧ g.Is 0xE 0xA1 ∧ f.x = g.x

end Fields

namespace Machine

def Skips (m : Machine) (f : Fields) : Prop :=
  f.family.val = 0x3 ∧ m.v[f.x] = f.nn ∨
  f.family.val = 0x4 ∧ m.v[f.x] ≠ f.nn ∨
  f.family.val = 0x5 ∧ m.v[f.x] = m.v[f.y] ∨
  f.family.val = 0x9 ∧ m.v[f.x] ≠ m.v[f.y] ∨
  f.Is 0xE 0x9E ∧ m.keys[m.namedKey f.x] = true ∨
  f.Is 0xE 0xA1 ∧ m.keys[m.namedKey f.x] = false

instance (m : Machine) (f : Fields) : Decidable (m.Skips f) :=
  inferInstanceAs (Decidable (_ ∨ _))

def nextPc? (m : Machine) (f : Fields) : Option Int :=
  if f.family.val = 0x1 ∨ f.family.val = 0x2 then
    some f.nnn.val
  else if f.family.val = 0xB then
    m.v[0]?.map fun first => f.nnn.val + first.toNat
  else if f.Is 0x0 0xEE then
    m.stack[(m.sp - 1).toNat]?
  else if f.Is 0xF 0x0A ∧ ∀ key : Fin 16, m.keys.get key = false then
    some m.pc
  else if m.Skips f then
    some (m.pc + 4)
  else
    some (m.pc + 2)

structure Changes (m : Machine) (f : Fields) (m' : Machine) : Prop where
  memory    : ∀ (a : Nat) (h : a < Memory.size), m'.memory.bytes[a] ≠ m.memory.bytes[a] →
    f.Is 0xF 0x33 ∧ m.index ≤ a ∧ a < m.index + 3 ∨ f.Is 0xF 0x55 ∧ m.index ≤ a ∧ a ≤ m.index + f.x.val
  pixels    : m'.display ≠ m.display → f.Is 0x0 0xE0 ∨ f.family.val = 0xD
  stack     : ∀ k : Nat, m'.stack[k]? ≠ m.stack[k]? → f.family.val = 0x2 ∧ k = m.sp
  sp        : m'.sp = if f.family.val = 0x2 then m.sp + 1 else if f.Is 0x0 0xEE then m.sp - 1 else m.sp
  index     : m'.index ≠ m.index → f.family.val = 0xA ∨ f.Is 0xF 0x1E ∨ f.Is 0xF 0x29
  delay     : ¬f.Is 0xF 0x15 → m'.delay.toNat = m.delay.toNat - 1
  sound     : ¬f.Is 0xF 0x18 → m'.sound.toNat = m.sound.toNat - 1
  keys      : m'.keys = m.keys
  random    : m'.random =
    if f.family.val = 0xC then { m.random with drawn := m.random.drawn + 1 } else m.random
  registers : ∀ r : Register, m'.v.get r ≠ m.v.get r → f.CanChange r
  pc        : some m'.pc = m.nextPc? f

end Machine

theorem Memory.length_of_readBlock {m : Memory} {start : Int} {count : Nat} {block : List UInt8}
    (read : m.readBlock start count = .ok block) : block.length = count := by
  simp [eq_of_readBlock read]

namespace Instruction

variable {m m' : Machine} {i : Instruction} {f : Fields}

theorem mem_writes_of_changed (run : i.run m = .done m') {p : Part} (changed : ¬p.Same m m') : p ∈ i.writes := by
  by_contra unwritten
  have same := run_frame m i p unwritten
  rw [run] at same
  exact changed same

theorem setV_changes {x r : Register} {b : UInt8} (changed : (m.setV x b).v.get r ≠ m.v.get r) : r = x := by
  by_contra other
  exact changed (m.get_setV_of_ne other b)

theorem combine_changes {op : Operation} {x y r : Register}
    (changed : (m.combine op x y).v.get r ≠ m.v.get r) :
    r = x ∨ r = Machine.flag ∧ op.digit ∈ [0x4, 0x5, 0x6, 0x7, 0xE] := by
  by_cases target : r = x
  case pos => exact .inl target
  unfold Machine.combine at changed
  dsimp only at changed
  split at changed
  case h_1 carry leaves =>
    refine .inr ⟨?_, ?_⟩
    · by_contra other
      exact changed ((Machine.get_setV_of_ne _ target _).trans (m.get_setV_of_ne other _))
    · cases op <;> simp_all [Operation.carry?, Operation.digit]
  case h_2 => exact absurd (setV_changes changed) target

theorem writeMemory_changes {bytes : List UInt8} (write : m.writeMemory bytes = .done m') {a : Nat}
    (h : a < Memory.size) (changed : m'.memory.bytes[a] ≠ m.memory.bytes[a]) :
    m.index ≤ a ∧ a < m.index + bytes.length := by
  cases m.write_cases bytes with
  | fault _ hw => cases write.symm.trans hw
  | written block hw =>
    cases write.symm.trans hw
    rw [Memory.getElem_overwrite] at changed
    by_cases inBlock : m.index.toNat ≤ a ∧ a < m.index.toNat + bytes.length
    case pos =>
      have inside := Memory.inside_of_no_fault block (a := m.index) (by omega)
      omega
    case neg =>
      refine absurd ?_ changed
      split
      · rw [List.getD_eq_getElem?_getD, List.getElem?_eq_none (by omega)]
        rfl
      · rfl

variable (run : i.run m = .done m') (spells : f.Spells i)

include run spells

theorem memory_changes {a : Nat} (h : a < Memory.size) (changed : m'.memory.bytes[a] ≠ m.memory.bytes[a]) :
    f.Is 0xF 0x33 ∧ m.index ≤ a ∧ a < m.index + 3 ∨
      f.Is 0xF 0x55 ∧ m.index ≤ a ∧ a ≤ m.index + f.x.val := by
  have written : Part.memory ∈ i.writes :=
    mem_writes_of_changed run fun (same : m'.memory = m.memory) => changed (by rw [same])
  cases i <;> simp [writes] at written
  case storeDecimal x => exact .inl ⟨spells.left, writeMemory_changes run h changed⟩
  case store x =>
    obtain ⟨isStore, rfl⟩ := spells
    obtain ⟨low, high⟩ := writeMemory_changes run h changed
    rw [m.length_stored] at high
    exact .inr ⟨isStore, low, by omega⟩

theorem pixel_changes (changed : m'.display ≠ m.display) : f.Is 0x0 0xE0 ∨ f.family.val = 0xD := by
  have written : Part.pixels ∈ i.writes := mem_writes_of_changed run changed
  cases i <;> simp [writes] at written
  case clear => exact .inl spells
  case draw => exact .inr spells.left

theorem index_changes (changed : m'.index ≠ m.index) : f.family.val = 0xA ∨ f.Is 0xF 0x1E ∨ f.Is 0xF 0x29 := by
  have written : Part.index ∈ i.writes := mem_writes_of_changed run changed
  cases i <;> simp [writes] at written
  case setIndex => exact .inl spells.left
  case addIndex => exact .inr (.inl spells.left)
  case glyph    => exact .inr (.inr spells.left)

theorem timer_after (t : Timer) :
    t.value m' = if f.Is 0xF t.loadByte then m.v.get f.x else t.value m := by
  by_cases isLoad : f.Is 0xF t.loadByte
  case pos =>
    rw [if_pos isLoad]
    cases t with
    | delay =>
      cases eq_of_spells spells (show f.Spells (.setDelay f.x) from ⟨isLoad, rfl⟩)
      cases run
      rfl
    | sound =>
      cases eq_of_spells spells (show f.Spells (.setSound f.x) from ⟨isLoad, rfl⟩)
      cases run
      rfl
  case neg =>
    rw [if_neg isLoad]
    by_contra changed
    have written : t.part ∈ i.writes := mem_writes_of_changed run (by cases t <;> exact changed)
    refine isLoad ?_
    cases t <;> cases i <;> simp [Timer.part, writes] at written
    all_goals exact spells.left

theorem random_after :
    m'.random = if f.family.val = 0xC then { m.random with drawn := m.random.drawn + 1 } else m.random := by
  by_cases written : Part.random ∈ i.writes
  case pos =>
    cases i <;> simp [writes] at written
    case random x mask =>
      cases run
      rw [if_pos spells.left]
  case neg =>
    have other : f.family.val ≠ 0xC := by
      cases i
      case skip condition => cases condition <;> simp_all [Fields.Spells, Fields.Is]
      all_goals simp_all [Fields.Spells, Fields.Is, writes]
    rw [if_neg other]
    have same := run_frame m i .random written
    rw [run] at same
    exact same

theorem stack_changes (low : 0 ≤ m.sp) {k : Nat} (changed : m'.stack[k]? ≠ m.stack[k]?) :
    f.family.val = 0x2 ∧ k = m.sp := by
  have written : Part.stack ∈ i.writes :=
    mem_writes_of_changed run fun (same : m'.stack = m.stack) => changed (by rw [same])
  cases i <;> simp [writes] at written
  case call target =>
    refine ⟨spells.left, ?_⟩
    obtain ⟨n, sp⟩ := Int.eq_ofNat_of_zero_le low
    cases m.call_cases target with
    | overflow _ called | noEntry _ _ called => cases run.symm.trans called
    | push room =>
      cases run.symm.trans (Machine.call_of_lt target sp (by omega))
      by_contra other
      exact changed (Array.getElem?_set_ne (by omega) (by omega))

theorem sp_after : m'.sp = if f.family.val = 0x2 then m.sp + 1 else if f.Is 0x0 0xEE then m.sp - 1 else m.sp := by
  by_cases written : Part.sp ∈ i.writes
  case pos =>
    cases i <;> simp [writes] at written
    case call target =>
      rw [if_pos spells.left]
      cases m.call_cases target with
      | overflow _ called | noEntry _ _ called => cases run.symm.trans called
      | push _ _ called =>
        cases run.symm.trans called
        rfl
    case ret =>
      have family : f.family.val ≠ 0x2 := by simp [spells.left]
      have isReturn : f.Is 0x0 0xEE := spells
      rw [if_neg family, if_pos isReturn]
      cases m.ret_cases with
      | underflow _ returned | noEntry _ _ returned => cases run.symm.trans returned
      | back _ _ returned =>
        cases run.symm.trans returned
        rfl
  case neg =>
    have same := run_frame m i .sp written
    rw [run] at same
    have neither : f.family.val ≠ 0x2 ∧ ¬f.Is 0x0 0xEE := by
      cases i
      case skip condition => cases condition <;> simp_all [Fields.Spells, Fields.Is]
      all_goals simp_all [Fields.Spells, Fields.Is, writes]
    rw [if_neg neither.left, if_neg neither.right]
    exact same

theorem register_changes {r : Register} (changed : m'.v.get r ≠ m.v.get r) : f.CanChange r := by
  have written : Part.registers ∈ i.writes :=
    mem_writes_of_changed run fun (same : m'.v = m.v) => changed (by rw [same])
  cases i <;> simp [writes] at written
  case set | add | random =>
    obtain ⟨family, rfl, _⟩ := spells
    cases run
    exact .inl ⟨setV_changes changed, .inl (by simp [family])⟩
  case combine op x y =>
    obtain ⟨family, n, rfl, _⟩ := spells
    cases run
    rcases combine_changes changed with target | ⟨flag, digit⟩
    · exact .inl ⟨target, .inl (by simp [family])⟩
    · exact .inr (.inl ⟨flag, .inl ⟨family, n ▸ digit⟩⟩)
  case draw x y height =>
    cases m.draw_cases x y height with
    | fault _ drew | refused _ _ _ drew => cases run.symm.trans drew
    | drawn _ _ _ drew =>
      cases run.symm.trans drew
      exact .inr (.inl ⟨setV_changes changed, .inr (.inl spells.left)⟩)
  case readDelay x =>
    obtain ⟨isRead, rfl⟩ := spells
    cases run
    exact .inl ⟨setV_changes changed, .inr (.inl isRead)⟩
  case awaitKey x =>
    obtain ⟨isAwait, rfl⟩ := spells
    rw [Instruction.run] at run
    split at run <;> cases run
    · exact .inl ⟨setV_changes changed, .inr (.inr isAwait)⟩
    · exact absurd rfl changed
  case addIndex x =>
    cases run
    exact .inr (.inl ⟨setV_changes changed, .inr (.inr spells.left)⟩)
  case load x =>
    obtain ⟨isLoad, rfl⟩ := spells
    cases m.load_cases f.x with
    | fault _ loaded => cases run.symm.trans loaded
    | @loaded bytes _ read loaded =>
      cases run.symm.trans loaded
      refine .inr (.inr ⟨?_, isLoad⟩)
      by_contra above
      have past : bytes.length ≤ r.val := by
        have above : f.x.val < r.val := Fin.not_le.mp above
        have length : bytes.length = f.x.val + 1 := Memory.length_of_readBlock read
        omega
      refine changed ((Vector.getElem_ofFn r.isLt).trans ?_)
      rw [List.getD_eq_getElem?_getD, List.getElem?_eq_none past]
      rfl

end Instruction

namespace Machine

variable {m m' : Machine} {w : UInt16} {f : Fields}

theorem lowestKey?_eq_none : m.lowestKey? = none ↔ ∀ key : Fin 16, m.keys.get key = false := by
  simp only [lowestKey?, List.find?_eq_none, List.mem_finRange, forall_const, Bool.not_eq_true]

theorem holds_advance (condition : Condition) (word : Int) : condition.holds (m.advance word) = condition.holds m := by
  cases condition <;> rfl

theorem holds_iff_skips {condition : Condition} (spells : f.Spells (.skip condition)) :
    condition.holds m ↔ m.Skips f := by
  cases condition <;> simp_all [Fields.Spells, Fields.Is, Skips, Condition.holds]

theorem nextPc?_of_condition {condition : Condition} (spells : f.Spells (.skip condition)) :
    m.nextPc? f = some (if m.Skips f then m.pc + 4 else m.pc + 2) := by
  cases condition <;> simp_all [Fields.Spells, Fields.Is, nextPc?, apply_ite some]

section

variable {word : Int}

theorem pc_after_skip {condition : Condition}
    (run : (Instruction.skip condition).run (m.advance word) = .done m') (spells : f.Spells (.skip condition)) :
    some m'.pc = m.nextPc? f := by
  rw [nextPc?_of_condition spells, Instruction.run, holds_advance] at *
  cases run
  simp only [holds_iff_skips spells]
  split
  · exact congrArg some (Int.add_assoc m.pc 2 2)
  · rfl

theorem pc_after_awaitKey {x : Register} (run : (Instruction.awaitKey x).run (m.advance word) = .done m')
    (spells : f.Spells (.awaitKey x)) : some m'.pc = m.nextPc? f := by
  obtain ⟨⟨family, nn⟩, rfl⟩ := spells
  rw [Instruction.run] at run
  split at run <;> cases run
  case h_1.refl key found =>
    have pressed : ¬∀ key : Fin 16, m.keys.get key = false := by
      intro up
      cases found.symm.trans (lowestKey?_eq_none.mpr up)
    have next : m.nextPc? f = some (m.pc + 2) := by
      simp only [nextPc?, Skips, Fields.Is, family, nn, pressed]
      rfl
    rw [next]
    rfl
  case h_2.refl none =>
    have up : ∀ key : Fin 16, m.keys.get key = false := lowestKey?_eq_none.mp none
    have next : m.nextPc? f = some m.pc := by
      simp only [nextPc?, Fields.Is, family, nn, up]
      rfl
    rw [next]
    exact congrArg some (Int.add_sub_cancel m.pc 2)

theorem pc_after_ret (run : Instruction.ret.run (m.advance word) = .done m') (spells : f.Spells .ret)
    (sp : 0 ≤ m.sp ∧ m.sp ≤ m.stack.size) : some m'.pc = m.nextPc? f := by
  obtain ⟨family, nn⟩ := spells
  cases (m.advance word).ret_cases with
  | underflow _ returned | noEntry _ _ returned => cases run.symm.trans returned
  | back opened =>
    have opened : m.sp ≠ 0 := opened
    obtain ⟨n, top⟩ : ∃ n : Nat, m.sp = n + 1 := ⟨(m.sp - 1).toNat, by omega⟩
    have room : n < m.stack.size := by omega
    cases run.symm.trans (ret_of_lt (m := m.advance word) top room)
    have next : m.nextPc? f = m.stack[n]? := by simp [nextPc?, Fields.Is, family, nn, top]
    rw [next, Array.getElem?_eq_getElem room]
    rfl

theorem pc_after_call {target : Fin 4096} (run : (Instruction.call target).run (m.advance word) = .done m')
    (spells : f.Spells (.call target)) : some m'.pc = m.nextPc? f := by
  obtain ⟨family, rfl⟩ := spells
  cases (m.advance word).call_cases f.nnn with
  | overflow _ called | noEntry _ _ called => cases run.symm.trans called
  | push _ _ called =>
    cases run.symm.trans called
    simp [nextPc?, family]

theorem pc_after {i : Instruction} (run : i.run (m.advance word) = .done m') (spells : f.Spells i)
    (sp : f.Is 0x0 0xEE → 0 ≤ m.sp ∧ m.sp ≤ m.stack.size) : some m'.pc = m.nextPc? f := by
  by_cases written : Part.pc ∈ i.writes
  case pos =>
    cases i <;> simp [Instruction.writes] at written
    case jump | jumpFrom =>
      obtain ⟨family, rfl⟩ := spells
      cases run
      simp [nextPc?, family, advance, Int.add_comm]
    case call           => exact pc_after_call run spells
    case ret            => exact pc_after_ret run spells (sp spells)
    case awaitKey       => exact pc_after_awaitKey run spells
    case skip           => exact pc_after_skip run spells
  case neg =>
    have same := Instruction.run_frame (m.advance word) i .pc written
    rw [run] at same
    have next : m.nextPc? f = some (m.pc + 2) := by
      cases i
      all_goals simp_all [Fields.Spells, Fields.Is, Instruction.writes, nextPc?, Skips]
    rw [next]
    exact congrArg some same

theorem keys_after {i : Instruction} (run : i.run (m.advance word) = .done m') : m'.keys = m.keys :=
  Instruction.run_preserves_unwritten run (by decide : Part.keys ∈ Instruction.unwritten)

theorem changes_of_done {i : Instruction} (run : i.run (m.advance word) = .done m') (spells : f.Spells i)
    (sp : 0 ≤ m.sp ∧ m.sp ≤ m.stack.size) : m.Changes f m'.tick := by
  have memory {a} (h : a < Memory.size) := Instruction.memory_changes run spells h
  have pixels := Instruction.pixel_changes run spells
  have stack {k} := Instruction.stack_changes run spells sp.left (k := k)
  have index := Instruction.index_changes run spells
  have delay (other : ¬f.Is 0xF 0x15) : m'.delay = m.delay :=
    (Instruction.timer_after run spells .delay).trans (if_neg other)
  have sound (other : ¬f.Is 0xF 0x18) : m'.sound = m.sound :=
    (Instruction.timer_after run spells .sound).trans (if_neg other)
  have registers {r} := Instruction.register_changes run spells (r := r)
  have keys := keys_after run
  exact {
    memory _ h    := memory h
    pixels        := pixels
    stack _       := stack
    sp            := (Instruction.sp_after run spells : m'.sp = _)
    index         := index
    delay other   := (toNat_tickDown m'.delay).trans (by rw [delay other])
    sound other   := (toNat_tickDown m'.sound).trans (by rw [sound other])
    keys          := keys
    random        := (Instruction.random_after run spells : m'.random = _)
    registers _   := registers
    pc            := (pc_after run spells fun _ => sp : some m'.pc = _) }

end

theorem exists_condition_of_opposite {g : Fields} (opposite : f.Opposite g) :
    (∃ condition, f.Spells (.skip condition)) ∧ ∃ condition, g.Spells (.skip condition) := by
  rcases opposite with ⟨hf, hg, _⟩ | ⟨hf, hg, _⟩ | ⟨hf, hg, _⟩
  · exact ⟨⟨.equals f.x f.nn, hf, rfl, rfl⟩, .differs g.x g.nn, hg, rfl, rfl⟩
  · exact ⟨⟨.same f.x f.y, hf, rfl, rfl⟩, .distinct g.x g.y, hg, rfl, rfl⟩
  · exact ⟨⟨.keyDown f.x, hf, rfl⟩, .keyUp g.x, hg, rfl⟩

theorem skips_iff_of_opposite {g : Fields} (opposite : f.Opposite g) (v : m'.v = m.v) (keys : m'.keys = m.keys) :
    m'.Skips g ↔ ¬m.Skips f := by
  rcases opposite with ⟨hf, hg, x, nn⟩ | ⟨hf, hg, x, y⟩ | ⟨⟨hf, hf'⟩, ⟨hg, hg'⟩, x⟩
  all_goals simp_all [Skips, Fields.Is, namedKey]

theorem pc_of_condition {condition : Condition} (executed : m.executed? = some w)
    (spells : (Word.fields w.toNat).Spells (.skip condition)) :
    m.step.machine.pc = if m.Skips (Word.fields w.toNat) then m.pc + 4 else m.pc + 2 := by
  obtain ⟨i, left, _, decode, run, step⟩ := exists_run_of_executed executed
  cases decode.symm.trans (Instruction.ofFields?_of_spells spells)
  have pc := pc_after_skip run spells
  rw [nextPc?_of_condition spells] at pc
  rw [step]
  exact Option.some.inj pc

-- A cycle that carries out a word changes only what the word is meant to change. Of two words that skip on
-- opposite conditions exactly one skips when their operands are equal.
theorem normal_cycle_changes (sp : 0 ≤ m.sp ∧ m.sp ≤ m.stack.size) (executed : m.executed? = some w) :
    m.Changes (Word.fields w.toNat) m.step.machine ∧
      ∀ (m' : Machine) (w' : UInt16), m'.executed? = some w' → m'.v = m.v → m'.keys = m.keys →
        (Word.fields w.toNat).Opposite (Word.fields w'.toNat) →
        m.step.machine.pc = m.pc + 4 ∧ m'.step.machine.pc = m'.pc + 2 ∨
        m.step.machine.pc = m.pc + 2 ∧ m'.step.machine.pc = m'.pc + 4 := by
  have ⟨i, left, _, decode, run, step⟩ := exists_run_of_executed executed
  have spells := Instruction.spells_of_ofFields? decode
  refine ⟨?_, fun m' w' executed' v keys opposite => ?_⟩
  · rw [step]
    exact changes_of_done run spells sp
  · have ⟨⟨_, skip⟩, _, skip'⟩ := exists_condition_of_opposite opposite
    have pc := pc_of_condition executed skip
    have pc' := pc_of_condition executed' skip'
    have opposed := skips_iff_of_opposite opposite v keys
    by_cases skips : m.Skips (Word.fields w.toNat)
    · rw [if_pos skips] at pc
      rw [if_neg fun skips' => opposed.mp skips' skips] at pc'
      exact .inl ⟨pc, pc'⟩
    · rw [if_neg skips] at pc
      rw [if_pos (opposed.mpr skips)] at pc'
      exact .inr ⟨pc, pc'⟩

theorem skip_changes_pc_alone :
    (holding [0x30, 0x00]).executed? = some 0x3000 ∧
      (holding [0x30, 0x00]).Changes (Word.fields 0x3000) (holding [0x30, 0x00]).step.machine ∧
      (holding [0x30, 0x00]).step.machine.pc = 0x204 ∧ (holding [0x40, 0x00]).step.machine.pc = 0x202 := by
  have executed : (holding [0x30, 0x00]).executed? = some 0x3000 := by decide +kernel
  have executed' : (holding [0x40, 0x00]).executed? = some 0x4000 := by decide +kernel
  have ⟨changes, one⟩ := normal_cycle_changes (m := holding [0x30, 0x00]) (by decide +kernel) executed
  have skipped : (holding [0x30, 0x00]).step.machine.pc = 0x204 := by decide +kernel
  have opposite : (Word.fields 0x3000).Opposite (Word.fields 0x4000) := .inl (by decide)
  rcases one _ _ executed' (by decide +kernel) (by decide +kernel) opposite with ⟨_, passed⟩ | ⟨stayed, _⟩
  · exact ⟨executed, changes, skipped, passed⟩
  · cases skipped.symm.trans stayed

end Machine
end Chip8
