import Chip8.Proofs.Run

namespace Chip8

-- The ranges that a machine never leaves. The highest program counter comes from a jump that adds a
-- register to its target, the highest return address from a call in the last two bytes of memory.
structure Machine.InRange (m : Machine) : Prop where
  index : 0 ≤ m.index ∧ m.index ≤ 0xFFFF
  pc    : 0 ≤ m.pc ∧ m.pc ≤ 0x10FE
  sp    : 0 ≤ m.sp ∧ m.sp ≤ m.stack.size
  stack : ∀ a ∈ m.stack, 0 ≤ a ∧ a ≤ 4096

structure Machine.Bounded (stackSize : Nat) (width height : Int) (m : Machine) : Prop where
  registers : m.v.toArray.size = 16 ∧ ∀ b ∈ m.v, b.toNat ≤ 255
  index     : 0 ≤ m.index ∧ m.index ≤ 0xFFFF
  pc        : 0 ≤ m.pc ∧ m.pc ≤ 0x10FE
  sp        : 0 ≤ m.sp ∧ m.sp ≤ stackSize
  stack     : m.stack.size = stackSize ∧ ∀ a ∈ m.stack, 0 ≤ a ∧ a ≤ 4096
  timers    : m.delay.toNat ≤ 255 ∧ m.sound.toNat ≤ 255
  keys      : m.keys.toArray.size = 16
  memory    : m.memory.bytes.toArray.size = 4096
  pixels    : (m.display.pixels.size : Int) = width * height ∧ ∀ p ∈ m.display.pixels, p.toNat ≤ 1

namespace Instruction

variable {m : Machine}

theorem run_preserves_index_range (i : Instruction) (h : 0 ≤ m.index ∧ m.index ≤ 0xFFFF) :
    0 ≤ (i.run m).machine.index ∧ (i.run m).machine.index ≤ 0xFFFF := by
  by_cases hw : Part.index ∈ i.writes
  case neg =>
    have same : (i.run m).machine.index = m.index := run_frame m i _ hw
    exact same ▸ h
  case pos =>
    cases i <;> simp [writes] at hw
    case setIndex a =>
      have := a.isLt
      show 0 ≤ (a.val : Int) ∧ (a.val : Int) ≤ 0xFFFF
      omega
    case glyph x =>
      have := m.v[x].toNat_lt
      show 0 ≤ (m.v[x].toNat * 5 : Int) ∧ (m.v[x].toNat * 5 : Int) ≤ 0xFFFF
      omega
    case addIndex x =>
      show 0 ≤ (m.index + m.v[x].toNat) % 0x10000 ∧ (m.index + m.v[x].toNat) % 0x10000 ≤ 0xFFFF
      omega

-- The program counter is already past the instruction, which lies in memory.
theorem run_pc_range (i : Instruction) (low : 2 ≤ m.pc) (high : m.pc ≤ 4096)
    (stack : ∀ a ∈ m.stack, 0 ≤ a ∧ a ≤ 4096) :
    0 ≤ (i.run m).machine.pc ∧ (i.run m).machine.pc ≤ 0x10FE := by
  by_cases hw : Part.pc ∈ i.writes
  case neg =>
    have same : (i.run m).machine.pc = m.pc := run_frame m i _ hw
    omega
  case pos =>
    cases i <;> simp [writes] at hw
    case ret =>
      cases m.ret_cases with
      | @back j _ _ hr =>
        rw [run, hr]
        have := stack m.stack[j] (Array.getElem_mem j.isLt)
        dsimp only [Execution.machine]
        omega
      | underflow _ hr | noEntry _ _ hr =>
        rw [run, hr]
        dsimp only [Execution.machine]
        omega
    case call target =>
      have := target.isLt
      cases m.call_cases target with
      | overflow _ hr | push _ _ hr | noEntry _ _ hr =>
        rw [run, hr]
        dsimp only [Execution.machine]
        omega
    case jump target =>
      have := target.isLt
      show 0 ≤ (target.val : Int) ∧ (target.val : Int) ≤ 0x10FE
      omega
    case skip condition =>
      rw [run]
      split <;> dsimp only [Execution.machine, Machine.skip] <;> omega
    case jumpFrom base =>
      have := base.isLt
      have := m.v[0].toNat_lt
      show 0 ≤ (m.v[0].toNat + base.val : Int) ∧ (m.v[0].toNat + base.val : Int) ≤ 0x10FE
      omega
    case awaitKey x =>
      rw [run]
      split <;> dsimp only [Execution.machine, Machine.setV] <;> omega

theorem run_preserves_sp_range (i : Instruction) (h : 0 ≤ m.sp ∧ m.sp ≤ m.stack.size) :
    0 ≤ (i.run m).machine.sp ∧ (i.run m).machine.sp ≤ (i.run m).machine.stack.size := by
  rw [run_preserves_stack_size]
  by_cases hw : Part.sp ∈ i.writes
  case neg =>
    have same : (i.run m).machine.sp = m.sp := run_frame m i _ hw
    omega
  case pos =>
    cases i <;> simp [writes] at hw
    case ret =>
      cases m.ret_cases with
      | underflow _ hr | back _ _ hr | noEntry _ _ hr =>
        rw [run, hr]
        dsimp only [Execution.machine]
        omega
    case call target =>
      cases m.call_cases target with
      | overflow _ hr | push _ _ hr | noEntry _ _ hr =>
        rw [run, hr]
        dsimp only [Execution.machine]
        omega

theorem run_preserves_stack_range (i : Instruction) (low : 0 ≤ m.pc) (high : m.pc ≤ 4096)
    (stack : ∀ a ∈ m.stack, 0 ≤ a ∧ a ≤ 4096) : ∀ a ∈ (i.run m).machine.stack, 0 ≤ a ∧ a ≤ 4096 := by
  by_cases hw : Part.stack ∈ i.writes
  case neg =>
    have same : (i.run m).machine.stack = m.stack := run_frame m i _ hw
    exact same ▸ stack
  case pos =>
    cases i <;> simp [writes] at hw
    case call target =>
      cases m.call_cases target with
      | @push j _ _ hr =>
        rw [run, hr]
        intro a ha
        cases Array.mem_or_eq_of_mem_set (w := j.isLt) ha with
        | inl old => exact stack a old
        | inr new => exact new ▸ ⟨low, high⟩
      | overflow _ hr | noEntry _ _ hr =>
        rw [run, hr]
        exact stack

theorem run_preserves_range (i : Instruction) (h : m.InRange) (low : 2 ≤ m.pc) (high : m.pc ≤ 4096) :
    (i.run m).machine.InRange where
  index := run_preserves_index_range i h.index
  pc    := run_pc_range i low high h.stack
  sp    := run_preserves_sp_range i h.sp
  stack := run_preserves_stack_range i h.pc.left high h.stack

end Instruction

namespace Machine

variable {m : Machine}

theorem powerOn_inRange (display : Display) (edge : EdgeRule) (stackSize : Nat) (random : RandomSource)
    (speaker : Option Nat) : (powerOn display edge stackSize random speaker).InRange where
  index := by simp [powerOn]
  pc    := by simp [powerOn, Memory.programStart]
  sp    := by simp [powerOn]
  stack a ha := by
    have := Array.eq_of_mem_replicate ha
    omega

theorem reset_inRange (m : Machine) : m.reset.InRange where
  index := by simp [reset]
  pc    := by simp [reset, Memory.programStart]
  sp    := by simp [reset]
  stack a ha := by
    have := Array.eq_of_mem_replicate ha
    omega

theorem InRange.advance (h : m.InRange) (word : Int) (low : 0 ≤ m.pc) (high : m.pc + 1 < 4096) :
    (m.advance word).InRange where
  index := h.index
  pc    := by dsimp only [Machine.advance]; omega
  sp    := h.sp
  stack := h.stack

theorem InRange.tick (h : m.InRange) : m.tick.InRange :=
  ⟨h.index, h.pc, h.sp, h.stack⟩

theorem InRange.run (h : m.InRange) {w : UInt16} {i : Instruction} {e : Execution}
    (fetch : Word.fetch m.memory.bytes m.pc = .ok w) (run : i.run (m.advance w.toNat) = e) :
    e.machine.InRange := by
  have ⟨low, (high : m.pc + 1 < 4096)⟩ := Word.fetch_eq_ok fetch
  -- The fetch went well, so the instruction lies in memory.
  have advanced := h.advance w.toNat low high
  rw [← run]
  refine Instruction.run_preserves_range i advanced ?low ?high
  all_goals dsimp only [Machine.advance]; omega

theorem InRange.step (h : m.InRange) : m.step.machine.InRange := by
  have course := m.course
  generalize m.step = t at course ⊢
  cases course with
  | stuck => exact ⟨h.index, h.pc, h.sp, h.stack⟩
  | unknown fetch =>
    have ⟨low, high⟩ := Word.fetch_eq_ok fetch
    exact (h.advance _ low high).tick
  | crash fetch _ run => exact h.run fetch run
  | done fetch _ run => exact (h.run fetch run).tick

theorem InRange.serve (h : m.InRange) (r : Request) : (m.serve r).InRange := by
  have service := m.service r
  generalize m.serve r = m' at service ⊢
  cases service with
  | step  => exact h.step
  | reset => exact m.reset_inRange
  | tick  => exact h.tick
  | memory | keys => exact ⟨h.index, h.pc, h.sp, h.stack⟩

theorem exists_cycle (sp : 0 ≤ m.sp ∧ m.sp ≤ m.stack.size) (fits : m.edge.Fits m.display) :
    ∃ c, m.step.result = .ok c := by
  have course := m.course
  generalize m.step = t at course ⊢
  cases course with
  | crash _ _ run => exact (Instruction.not_run_crash run sp.left sp.right fits).elim
  | _ => exact ⟨_, rfl⟩

theorem advance_preserves_make (m : Machine) (word : Int) : m.SameMake (m.advance word) :=
  ⟨rfl, rfl, rfl, rfl⟩

theorem tick_preserves_make (m : Machine) : m.SameMake m.tick :=
  ⟨rfl, rfl, rfl, rfl⟩

theorem reset_preserves_make (m : Machine) : m.SameMake m.reset where
  stackSize := Array.size_replicate
  width     := rfl
  height    := rfl
  edge      := rfl

theorem step_preserves_make (m : Machine) : m.SameMake m.step.machine := by
  have course := m.course
  generalize m.step = t at course ⊢
  cases course with
  | stuck | unknown => exact ⟨rfl, rfl, rfl, rfl⟩
  | crash _ _ run => exact (m.advance_preserves_make _).trans (Instruction.run_preserves_make run)
  | done _ _ run =>
    have same := (m.advance_preserves_make _).trans (Instruction.run_preserves_make run)
    exact same.trans (tick_preserves_make _)

theorem serve_preserves_make (m : Machine) (r : Request) : m.SameMake (m.serve r) := by
  have service := m.service r
  generalize m.serve r = m' at service ⊢
  cases service with
  | step  => exact m.step_preserves_make
  | reset => exact m.reset_preserves_make
  | tick | memory | keys => exact ⟨rfl, rfl, rfl, rfl⟩

theorem after_preserves_make (m : Machine) (requests : List Request) : m.SameMake (m.after requests) :=
  after_preserves (fun m' r _ same => same.trans (m'.serve_preserves_make r)) (.refl m)

theorem starts_preserves_make (m : Machine) {requests : List Request} {s : Machine} (mem : s ∈ m.starts requests) :
    m.SameMake s := by
  obtain ⟨past, _, rfl⟩ := exists_after_of_mem_starts mem
  exact m.after_preserves_make past

theorem InRange.after (h : m.InRange) (requests : List Request) : (m.after requests).InRange :=
  after_preserves (fun _ r _ h' => h'.serve r) h

-- Nothing can bring the machine down.
structure Alive (m : Machine) : Prop where
  range : m.InRange
  fits  : m.edge.Fits m.display

theorem Alive.serve (h : m.Alive) (r : Request) : (m.serve r).Alive :=
  ⟨h.range.serve r, (m.serve_preserves_make r).fits h.fits⟩

theorem Alive.exists_cycle (h : m.Alive) : ∃ c, m.step.result = .ok c :=
  Machine.exists_cycle h.range.sp h.fits

theorem Alive.after (h : m.Alive) (requests : List Request) : (m.after requests).Alive :=
  after_preserves (fun _ r _ h' => h'.serve r) h

theorem Alive.starts (h : m.Alive) {requests : List Request} : ∀ s ∈ m.starts requests, s.Alive := by
  intro s mem
  obtain ⟨past, _, rfl⟩ := exists_after_of_mem_starts mem
  exact h.after past

theorem holding_alive (program : List UInt8) : (holding program).Alive := by
  have range := powerOn_inRange .standard .clip 16 (.cycle #[]) none
  exact Alive.after ⟨range, by simp [EdgeRule.Fits, powerOn]⟩ _

theorem InRange.bounded {m₀ : Machine} (h : m.InRange) (same : m₀.SameMake m) :
    m.Bounded m₀.stack.size m₀.display.width m₀.display.height where
  registers := ⟨m.v.size_toArray, fun b _ => Nat.le_of_lt_succ b.toNat_lt⟩
  index     := h.index
  pc        := h.pc
  sp        := same.stackSize ▸ h.sp
  stack     := ⟨same.stackSize, h.stack⟩
  timers    := ⟨Nat.le_of_lt_succ m.delay.toNat_lt, Nat.le_of_lt_succ m.sound.toNat_lt⟩
  keys      := m.keys.size_toArray
  memory    := m.memory.bytes.size_toArray
  pixels    := ⟨same.width ▸ same.height ▸ m.display.size_eq, fun p _ => p.toNat_le⟩

-- Whatever a machine is asked for after it was switched on, it stays in its bounds, and its next cycle
-- ends with a report.
theorem always_bounded_and_alive (display : Display) (edge : EdgeRule) (stackSize : Nat)
    (random : RandomSource) (speaker : Option Nat) (fits : edge.Fits display) (requests : List Request) :
    ((powerOn display edge stackSize random speaker).after requests).Bounded
        stackSize display.width display.height ∧
      ∃ c, ((powerOn display edge stackSize random speaker).after requests).step.result = .ok c := by
  have inRange := (powerOn_inRange display edge stackSize random speaker).after requests
  have same := (powerOn display edge stackSize random speaker).after_preserves_make requests
  have bounded := inRange.bounded same
  rw [show (powerOn display edge stackSize random speaker).stack.size = stackSize from
    Array.size_replicate] at bounded
  exact ⟨bounded, exists_cycle inRange.sp (same.fits fits)⟩

theorem bounded_and_alive_at_highest_pc :
    EdgeRule.wrap.Fits .standard ∧
      ((powerOn .standard .wrap 16 (.cycle #[]) none).after
        [.load [0x60, 0xFF, 0xBF, 0xFF], .step, .step]).pc = 0x10FE ∧
      ((powerOn .standard .wrap 16 (.cycle #[]) none).after
        [.load [0x60, 0xFF, 0xBF, 0xFF], .step, .step]).Bounded 16 64 32 ∧
      ∃ c, ((powerOn .standard .wrap 16 (.cycle #[]) none).after
        [.load [0x60, 0xFF, 0xBF, 0xFF], .step, .step]).step.result = .ok c :=
  have fits : EdgeRule.wrap.Fits .standard := fun _ => by decide
  ⟨fits, by decide +kernel, always_bounded_and_alive .standard .wrap 16 (.cycle #[]) none fits _⟩

end Machine
end Chip8
