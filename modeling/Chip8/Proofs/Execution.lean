import Chip8.Machine.Execution
import Chip8.Proofs.Drawing

namespace Chip8

namespace Instruction

-- The fault that an instruction ends in on a machine whose program counter is already past it. Only the
-- program counter, the index register, the stack pointer and the size of the stack are looked at.
def fault? (m : Machine) : Instruction → Option Fault
  | ret             => if m.sp = 0 then some (.stackUnderflow (m.pc - 2)) else none
  | call _          => if m.stack.size ≤ m.sp then some (.stackOverflow (m.pc - 2)) else none
  | draw _ _ height => Memory.blockFault? m.index height
  | storeDecimal _  => Memory.blockFault? m.index 3
  | store x         => Memory.blockFault? m.index (x + 1)
  | load x          => Memory.blockFault? m.index (x + 1)
  | _               => none

theorem fault?_congr {m m' : Machine} (i : Instruction) (hpc : m'.pc = m.pc) (hi : m'.index = m.index)
    (hsp : m'.sp = m.sp) (hs : m'.stack.size = m.stack.size) : i.fault? m' = i.fault? m := by
  cases i <;> simp only [fault?, hpc, hi, hsp, hs]

theorem fault?_ne_unknownWord {m : Machine} {i : Instruction} {w : Int} :
    i.fault? m ≠ some (.unknownWord w) := by
  intro h
  cases i
  case ret | call =>
    simp only [fault?] at h
    split at h <;> cases h
  case draw | storeDecimal | store | load =>
    have ⟨_, ha⟩ := Memory.blockFault?_eq_some h
    cases ha
  all_goals cases h

end Instruction

namespace Machine

theorem length_stored (m : Machine) (x : Register) : (m.v.toList.take (x + 1)).length = x.val + 1 := by
  rw [List.length_take, Vector.length_toList]
  omega

theorem get_setV (m : Machine) (x : Register) (b : UInt8) : (m.setV x b).v.get x = b :=
  Vector.getElem_set_self x.isLt

theorem get_setV_of_ne (m : Machine) {x r : Register} (other : r ≠ x) (b : UInt8) :
    (m.setV x b).v.get r = m.v.get r :=
  Vector.getElem_set_ne x.isLt r.isLt (Fin.val_ne_of_ne other.symm)

theorem combine_writes_registers (m : Machine) (op : Operation) (x y : Register) :
    ∃ v, m.combine op x y = { m with v } := by
  unfold combine
  dsimp only
  split <;> exact ⟨_, rfl⟩

end Machine

namespace Instruction

inductive FaultCases (m : Machine) (i : Instruction) : Prop
  | fault {f : Fault} (fault : i.fault? m = some f) (run : i.run m = .fault f m)
  | noFault (fault : i.fault? m = none) (run : ∀ f m', i.run m ≠ .fault f m')

theorem fault_cases (m : Machine) (i : Instruction) : FaultCases m i := by
  cases i
  case ret =>
    cases m.ret_cases with
    | underflow closed hr => exact .fault (if_pos closed) hr
    | back opened _ hr | noEntry opened _ hr =>
      exact .noFault (if_neg opened) fun _ _ hf => by cases hr.symm.trans hf
  case call target =>
    cases m.call_cases target with
    | overflow full hr => exact .fault (if_pos full) hr
    | push room _ hr | noEntry room _ hr =>
      exact .noFault (if_neg room) fun _ _ hf => by cases hr.symm.trans hf
  case draw x y height =>
    cases m.draw_cases x y height with
    | fault block hr => exact .fault block hr
    | drawn block _ _ hr | refused block _ _ hr => exact .noFault block fun _ _ hf => by cases hr.symm.trans hf
  case storeDecimal x =>
    cases m.write_cases (Machine.decimalDigits m.v[x]) with
    | fault block hr   => exact .fault block hr
    | written block hr => exact .noFault block fun _ _ hf => by cases hr.symm.trans hf
  case store x =>
    cases m.write_cases (m.v.toList.take (x + 1)) with
    | fault block hr =>
      rw [m.length_stored] at block
      exact .fault block hr
    | written block hr =>
      rw [m.length_stored] at block
      exact .noFault block fun _ _ hf => by cases hr.symm.trans hf
  case load x =>
    cases m.load_cases x with
    | fault block hr    => exact .fault block hr
    | loaded block _ hr => exact .noFault block fun _ _ hf => by cases hr.symm.trans hf
  case awaitKey x =>
    refine .noFault rfl fun _ _ hf => ?_
    rw [run] at hf
    split at hf <;> cases hf
  all_goals exact .noFault rfl fun _ _ hf => by cases hf

variable {m : Machine} {i : Instruction}

theorem run_of_fault {f : Fault} (h : i.fault? m = some f) : i.run m = .fault f m := by
  cases fault_cases m i with
  | fault fault run =>
    cases fault.symm.trans h
    exact run
  | noFault fault => cases fault.symm.trans h

theorem fault?_of_run {f : Fault} {m' : Machine} (h : i.run m = .fault f m') : i.fault? m = some f := by
  cases fault_cases m i with
  | fault fault run =>
    cases run.symm.trans h
    exact fault
  | noFault _ run => exact absurd h (run f m')

-- The stack pointer counts entries of the stack, and drawing finds a place for every bit. Then no
-- instruction brings the machine down.
theorem not_run_crash {c : Crash} {m' : Machine} (hc : i.run m = .crash c m') (low : 0 ≤ m.sp)
    (high : m.sp ≤ m.stack.size) (fits : m.edge.Fits m.display) : False := by
  cases i
  case ret =>
    cases m.ret_cases with
    | underflow _ hr | back _ _ hr => cases hr.symm.trans hc
    | noEntry opened entry =>
      have named : -(m.stack.size : Int) ≤ m.sp - 1 ∧ m.sp - 1 < m.stack.size := by omega
      have ⟨_, found⟩ := Index.entry_eq_ok_iff.mpr named
      cases entry.symm.trans found
  case call target =>
    cases m.call_cases target with
    | overflow _ hr | push _ _ hr => cases hr.symm.trans hc
    | noEntry room entry =>
      have named : -(m.stack.size : Int) ≤ m.sp ∧ m.sp < m.stack.size := by omega
      have ⟨_, found⟩ := Index.entry_eq_ok_iff.mpr named
      cases entry.symm.trans found
  case draw x y height =>
    cases m.draw_cases x y height with
    | fault _ hr | drawn _ _ _ hr => cases hr.symm.trans hc
    | @refused rows _ _ _ refused =>
      have ⟨_, drew⟩ := Sprite.exists_draw fits (Int.natCast_nonneg m.v[x].toNat)
        (Int.natCast_nonneg m.v[y].toNat) rows
      cases refused.symm.trans drew
  case storeDecimal x =>
    cases m.write_cases (Machine.decimalDigits m.v[x]) with
    | fault _ hr | written _ hr => cases hr.symm.trans hc
  case store x =>
    cases m.write_cases (m.v.toList.take (x + 1)) with
    | fault _ hr | written _ hr => cases hr.symm.trans hc
  case load x =>
    cases m.load_cases x with
    | fault _ hr | loaded _ _ hr => cases hr.symm.trans hc
  case awaitKey x =>
    rw [run] at hc
    split at hc <;> cases hc
  all_goals cases hc

end Instruction

inductive Part where
  | memory | registers | index | pc | sp | stack | delay | sound | keys | pixels | edge | draw | word | random | beeps
deriving DecidableEq

def Part.Same (m m' : Machine) : Part → Prop
  | memory    => m'.memory = m.memory
  | registers => m'.v = m.v
  | index     => m'.index = m.index
  | pc        => m'.pc = m.pc
  | sp        => m'.sp = m.sp
  | stack     => m'.stack = m.stack
  | delay     => m'.delay = m.delay
  | sound     => m'.sound = m.sound
  | keys      => m'.keys = m.keys
  | pixels    => m'.display = m.display
  | edge      => m'.edge = m.edge
  | draw      => m'.draw = m.draw
  | word      => m'.word = m.word
  | random    => m'.random = m.random
  | beeps     => m'.speaker = m.speaker

theorem Part.Same.symm {p : Part} {m m' : Machine} (h : p.Same m m') : p.Same m' m := by
  cases p <;> exact Eq.symm h

theorem Part.Same.trans {p : Part} {m m' m'' : Machine} (h : p.Same m m') (h' : p.Same m' m'') :
    p.Same m m'' := by
  cases p <;> exact Eq.trans h' h

def Machine.SameBut (parts : List Part) (m m' : Machine) : Prop :=
  ∀ p ∉ parts, p.Same m m'

namespace Machine.SameBut

variable {m m' m'' : Machine} {parts : List Part}

theorem trans (h : m.SameBut parts m') (h' : m'.SameBut parts m'') : m.SameBut parts m'' :=
  fun p hp => (h p hp).trans (h' p hp)

theorem mono {more : List Part} (h : m.SameBut parts m') (sub : parts ⊆ more) : m.SameBut more m' :=
  fun p hp => h p (mt (@sub p) hp)

end Machine.SameBut

namespace Instruction

def writes : Instruction → List Part
  | clear          => [.pixels, .draw]
  | ret            => [.sp, .pc]
  | call _         => [.stack, .sp, .pc]
  | jump _         => [.pc]
  | skip _         => [.pc]
  | jumpFrom _     => [.pc]
  | set _ _        => [.registers]
  | add _ _        => [.registers]
  | combine _ _ _  => [.registers]
  | readDelay _    => [.registers]
  | load _         => [.registers]
  | setIndex _     => [.index]
  | glyph _        => [.index]
  | addIndex _     => [.registers, .index]
  | random _ _     => [.registers, .random]
  | draw _ _ _     => [.registers, .pixels, .draw]
  | awaitKey _     => [.registers, .pc]
  | setDelay _     => [.delay]
  | setSound _     => [.sound]
  | storeDecimal _ => [.memory]
  | store _        => [.memory]

theorem run_frame (m : Machine) (i : Instruction) : m.SameBut i.writes (i.run m).machine := by
  intro p h
  cases i
  case ret =>
    cases m.ret_cases with
    | underflow _ hr | back _ _ hr | noEntry _ _ hr =>
      rw [run, hr]
      cases p <;> simp_all [writes, Part.Same, Execution.machine]
  case call target =>
    cases m.call_cases target with
    | overflow _ hr | push _ _ hr | noEntry _ _ hr =>
      rw [run, hr]
      cases p <;> simp_all [writes, Part.Same, Execution.machine]
  case draw x y height =>
    cases m.draw_cases x y height with
    | fault _ hr | drawn _ _ _ hr | refused _ _ _ hr =>
      rw [run, hr]
      cases p <;> simp_all [writes, Part.Same, Execution.machine, Machine.setV]
  case storeDecimal x =>
    cases m.write_cases (Machine.decimalDigits m.v[x]) with
    | fault _ hr | written _ hr =>
      rw [run, hr]
      cases p <;> simp_all [writes, Part.Same, Execution.machine]
  case store x =>
    cases m.write_cases (m.v.toList.take (x + 1)) with
    | fault _ hr | written _ hr =>
      rw [run, hr]
      cases p <;> simp_all [writes, Part.Same, Execution.machine]
  case load x =>
    cases m.load_cases x with
    | fault _ hr | loaded _ _ hr =>
      rw [run, hr]
      cases p <;> simp_all [writes, Part.Same, Execution.machine]
  case combine op x y =>
    obtain ⟨_, hc⟩ := m.combine_writes_registers op x y
    rw [run, hc]
    cases p <;> simp_all [writes, Part.Same, Execution.machine]
  case awaitKey x =>
    rw [run]
    split <;> cases p <;> simp_all [writes, Part.Same, Execution.machine, Machine.setV]
  case skip condition =>
    rw [run]
    split <;> cases p <;> simp_all [writes, Part.Same, Execution.machine, Machine.skip]
  all_goals
    cases p <;> simp_all [writes, run, Part.Same, Execution.machine, Machine.setV, Machine.addIndex]

end Instruction

structure Machine.SameMake (m m' : Machine) : Prop where
  stackSize : m'.stack.size = m.stack.size
  width     : m'.display.width = m.display.width
  height    : m'.display.height = m.display.height
  edge      : m'.edge = m.edge

namespace Machine.SameMake

variable {m m' m'' : Machine}

theorem refl (m : Machine) : m.SameMake m :=
  ⟨rfl, rfl, rfl, rfl⟩

theorem symm (h : m.SameMake m') : m'.SameMake m :=
  ⟨h.stackSize.symm, h.width.symm, h.height.symm, h.edge.symm⟩

theorem trans (h : m.SameMake m') (h' : m'.SameMake m'') : m.SameMake m'' where
  stackSize := h'.stackSize.trans h.stackSize
  width     := h'.width.trans h.width
  height    := h'.height.trans h.height
  edge      := h'.edge.trans h.edge

theorem fits (h : m.SameMake m') (hf : m.edge.Fits m.display) : m'.edge.Fits m'.display := by
  simp only [EdgeRule.Fits]
  rw [h.edge, h.width, h.height]
  exact hf

end Machine.SameMake

namespace Instruction

def unwritten : List Part :=
  [.keys, .edge, .word, .beeps]

theorem run_preserves_unwritten {m : Machine} {i : Instruction} {e : Execution} (run : i.run m = e) {p : Part}
    (spared : p ∈ unwritten) : p.Same m e.machine := by
  have apart : p ∉ i.writes := by
    simp only [unwritten, List.mem_cons, List.not_mem_nil, or_false] at spared
    rcases spared with rfl | rfl | rfl | rfl <;> cases i <;> simp [writes]
  exact run ▸ run_frame m i p apart

theorem run_preserves_stack_size (m : Machine) (i : Instruction) :
    (i.run m).machine.stack.size = m.stack.size := by
  by_cases h : Part.stack ∈ i.writes
  case neg => exact congrArg Array.size (run_frame m i _ h)
  case pos =>
    cases i <;> simp [writes] at h
    case call target =>
      cases m.call_cases target with
      | @push j _ _ hr =>
        rw [run, hr]
        exact Array.size_set j.isLt
      | overflow _ hr | noEntry _ _ hr =>
        rw [run, hr]
        rfl

theorem run_preserves_display_size (m : Machine) (i : Instruction) :
    (i.run m).machine.display.width = m.display.width ∧
      (i.run m).machine.display.height = m.display.height := by
  by_cases h : Part.pixels ∈ i.writes
  case neg =>
    have same : (i.run m).machine.display = m.display := run_frame m i _ h
    rw [same]
    exact ⟨rfl, rfl⟩
  case pos =>
    cases i <;> simp [writes] at h
    case clear => exact ⟨rfl, rfl⟩
    case draw x y height =>
      cases m.draw_cases x y height with
      | drawn _ _ drew hr =>
        rw [run, hr]
        exact Sprite.draw_preserves_size drew
      | fault _ hr | refused _ _ _ hr =>
        rw [run, hr]
        exact ⟨rfl, rfl⟩

theorem run_preserves_make {m : Machine} {i : Instruction} {e : Execution} (run : i.run m = e) :
    m.SameMake e.machine where
  stackSize := run ▸ run_preserves_stack_size m i
  width     := run ▸ (run_preserves_display_size m i).left
  height    := run ▸ (run_preserves_display_size m i).right
  edge      := run_preserves_unwritten run (by decide : Part.edge ∈ unwritten)

end Instruction
end Chip8
