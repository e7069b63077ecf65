import Chip8.Proofs.FaultCauses
import Chip8.Proofs.Refit

namespace Chip8

def Refit.roomy (room : Nat) : Refit where
  room

namespace Machine

variable {m : Machine} {k : Nat} {w : UInt16}

def overflows (m : Machine) : Bool :=
  match m.step.result with
  | .ok { fault := some (.stackOverflow _), .. } => true
  | _                                            => false

theorem overflows_iff :
    m.overflows = true ↔ ∃ w, Word.fetch m.memory.bytes m.pc = .ok w ∧ Word.IsCall w ∧ m.stack.size ≤ m.sp := by
  constructor
  case mp =>
    intro overflows
    simp only [Machine.overflows] at overflows
    split at overflows
    case h_1 result =>
      rcases stuck_or_unknown result rfl with stuck | ⟨_, _, _, unknown, _⟩
      · have cause := stuck.cause
        cases cause with
        | overflow fetch isCall full => exact ⟨_, fetch, isCall, full⟩
      · cases unknown
    case h_2 => cases overflows
  case mpr =>
    rintro ⟨w, fetch, isCall, full⟩
    simp only [overflows, (Cause.overflow fetch isCall full).stuck.step, finish]

theorem keepsCourse_roomy (sp : 0 ≤ m.sp ∧ m.sp ≤ m.stack.size) (quiet : m.overflows = false) :
    m.KeepsCourse (.roomy k) := by
  intro w i fetch decode looks
  cases i
  case ret => exact ret_refit (m := m.advance w.toNat) sp
  case call target =>
    have free : m.sp < m.stack.size := by
      by_contra full
      have isCall := Instruction.exists_call_iff.mp ⟨target, decode⟩
      have overflows := overflows_iff.mpr ⟨w, fetch, isCall, Int.not_lt.mp full⟩
      cases overflows.symm.trans quiet
    exact call_refit (m := m.advance w.toNat) sp.left (.inr free) target
  case draw x y height => exact drawSprite_refit fun _ _ => rfl
  all_goals cases looks

theorem step_roomy (fetch : Word.fetch m.memory.bytes m.pc = .ok w) (isCall : Word.IsCall w)
    (top : m.sp = m.stack.size) (more : 0 < k) :
    (m.refit (.roomy k)).step = { (m.refit (.roomy k)).advance w.toNat with
      stack := (m.refit (.roomy k)).stack.setIfInBounds m.stack.size ((m.refit (.roomy k)).pc + 2)
      sp := m.stack.size + 1
      pc := (Word.fields w.toNat).nnn.val }.finish w none [] := by
  have spells : (Word.fields w.toNat).Spells (.call (Word.fields w.toNat).nnn) :=
    ⟨(Word.val_family w).trans isCall, rfl⟩
  have free : m.stack.size < (m.refit (.roomy k)).stack.size := by
    rw [size_refit]
    exact Nat.lt_add_of_pos_right more
  have call := call_of_lt (m := (m.refit (.roomy k)).advance w.toNat) (Word.fields w.toNat).nnn top free
  rw [step_of_done (m := m.refit (.roomy k)) fetch ((execute_of_spells spells).trans call)]
  rw [Array.setIfInBounds, dif_pos free]
  rfl

-- A machine with a larger stack reports the same as one with a smaller stack for as long as the smaller does not
-- overflow, and is in the same state, with zeros on the rest of its stack. Where the smaller first overflows, the
-- larger carries out the call.
theorem larger_stack_postpones_overflow (display : Display) (edge : EdgeRule) {small large : Nat}
    (sizes : small ≤ large) (random : RandomSource) (speaker : Option Nat) {requests : List Request}
    (quiet : ∀ s ∈ (powerOn display edge small random speaker).starts requests, s.overflows = false) :
    let m := powerOn display edge small random speaker
    let n := powerOn display edge large random speaker
    (∀ past, past <+: requests → (m.after past).stack.size = small ∧
      n.after past = { m.after past with stack := (m.after past).stack ++ Array.replicate (large - small) 0 }) ∧
    n.results requests = m.results requests ∧
    ((m.after requests).overflows = true → small < large →
      ∃ w c, Word.fetch (m.after requests).memory.bytes (m.after requests).pc = .ok w ∧ Word.IsCall w ∧
        (n.after requests).step.result = .ok c ∧ c.word = some w ∧ c.status = .normal ∧
        (n.after requests).step.machine = tick { (n.after requests).advance w.toNat with
          stack := (n.after requests).stack.setIfInBounds small ((n.after requests).pc + 2)
          sp := small + 1
          pc := (Word.fields w.toNat).nnn.val }) := by
  intro m n
  have begins : n = m.refit (.roomy (large - small)) := by
    simp [m, n, powerOn, refit, Refit.roomy, sizes]
  have inRange : m.InRange := powerOn_inRange display edge small random speaker
  have courses : ∀ s ∈ m.starts requests, s.KeepsCourse (.roomy (large - small)) := by
    intro s mem
    obtain ⟨past, _, rfl⟩ := exists_after_of_mem_starts mem
    exact keepsCourse_roomy (inRange.after past).sp (quiet _ mem)
  have size (past : List Request) : (m.after past).stack.size = small :=
    (m.after_preserves_make past).stackSize.trans Array.size_replicate
  have after (past : List Request) (start : past <+: requests) :
      n.after past = { m.after past with stack := (m.after past).stack ++ Array.replicate (large - small) 0 } := by
    rw [begins]
    exact after_refit courses start
  refine ⟨fun past start => ⟨size past, after past start⟩, begins ▸ results_refit courses, fun overflows larger => ?_⟩
  obtain ⟨w, fetch, isCall, full⟩ := overflows_iff.mp overflows
  have top : (m.after requests).sp = (m.after requests).stack.size :=
    Int.le_antisymm (inRange.after requests).sp.right full
  -- The overflow itself still begins in equal states.
  have grown : n.after requests = (m.after requests).refit (.roomy (large - small)) :=
    after requests (List.prefix_refl requests)
  have step := step_roomy fetch isCall top (Nat.sub_pos_of_lt larger)
  rw [← grown, size requests] at step
  exact ⟨w, _, fetch, isCall, congrArg Turn.result step, rfl, rfl, congrArg Turn.machine step⟩

def callForever : List Request :=
  .load [0x22, 0x00] :: List.replicate 16 .step

theorem larger_stack_takes_seventeenth_call :
    let m := powerOn .standard .clip 16 (.cycle #[]) none
    let n := powerOn .standard .clip 17 (.cycle #[]) none
    16 ≤ 17 ∧ (∀ s ∈ m.starts callForever, s.overflows = false) ∧ (m.after callForever).overflows = true ∧
      n.results callForever = m.results callForever ∧
      (n.after callForever).stack = (m.after callForever).stack ++ #[0] ∧
      ∃ c, (n.after callForever).step.result = .ok c ∧ c.status = .normal ∧
        (n.after callForever).step.machine.sp = 17 := by
  intro m n
  have quiet : ∀ s ∈ m.starts callForever, s.overflows = false := by decide +kernel
  have overflows : (m.after callForever).overflows = true := by decide +kernel
  obtain ⟨after, results, postponed⟩ :=
    larger_stack_postpones_overflow .standard .clip (show 16 ≤ 17 by decide) (.cycle #[]) none quiet
  obtain ⟨w, c, _, _, result, _, status, left⟩ := postponed overflows (by decide)
  refine ⟨by decide, quiet, overflows, results, ?_, c, result, status, ?_⟩
  · exact congrArg Machine.stack (after _ (List.prefix_refl _)).right
  · rw [left]
    rfl

end Machine
end Chip8
