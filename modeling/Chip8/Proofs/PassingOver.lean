import Chip8.Proofs.FaultCauses

namespace Chip8

def passedWord : Except Crash Cycle → Bool
  | .ok c    => c.status = .decodeFailure
  | .error _ => false

namespace Machine

def wordsLeft (m : Machine) : Nat :=
  ((Memory.size - m.pc) / 2).toNat

def passingParts : List Part :=
  .pc :: outerParts

structure Passes (m m' : Machine) : Prop where
  inside : 0 ≤ m.pc ∧ m.pc + 1 < 4096
  pc     : m'.pc = m.pc + 2
  same   : m.SameBut passingParts m'

variable {m m' : Machine} {requests : List Request}

theorem Passes.wordsLeft (h : m.Passes m') : m'.wordsLeft + 1 = m.wordsLeft := by
  have ⟨low, high⟩ := h.inside
  simp only [Machine.wordsLeft, Memory.size, h.pc]
  omega

theorem passes_of_passedWord (passed : passedWord m.step.result) : m.Passes m.step.machine := by
  have course := m.course
  generalize m.step = t at course passed ⊢
  cases course with
  | stuck stuck => exact absurd (of_decide_eq_true passed) stuck.status
  | unknown fetch =>
    refine ⟨Word.fetch_eq_ok fetch, rfl, fun p other => ?_⟩
    cases p <;> simp_all [Part.Same, fail, settle, Fault.status, finish, tick, advance, passingParts, outerParts]
  | crash => cases passed
  | done => cases passed

theorem ne_step_of_outer {r : Request} (kind : r = .tick ∨ r.onKeys) : r ≠ .step := by
  rintro rfl
  rcases kind with other | onKeys
  · cases other
  · cases onKeys

theorem pc_of_outer (m : Machine) {r : Request} (kind : r = .tick ∨ r.onKeys) : (m.serve r).pc = m.pc :=
  m.serve_sameBut_restless kind .pc (by decide)

-- Each cycle that passes over a word leaves one word less, so there are no more of them in a row than there are words.
theorem passed_le_wordsLeft (kinds : ∀ r ∈ requests, r = .step ∨ r = .tick ∨ r.onKeys) :
    ((m.results requests).takeWhile passedWord).length ≤ m.wordsLeft := by
  induction requests generalizing m with
  | nil => exact Nat.zero_le _
  | cons r rest ih =>
    have further (m' : Machine) := ih (m := m') fun r' mem => kinds r' (List.mem_cons_of_mem r mem)
    rcases kinds r List.mem_cons_self with rfl | outer
    case inl =>
      rw [results_step, List.takeWhile_cons]
      split
      case isTrue passed =>
        rw [List.length_cons, ← (passes_of_passedWord passed).wordsLeft]
        exact Nat.succ_le_succ (further _)
      case isFalse => exact Nat.zero_le _
    case inr =>
      have same : (m.serve r).wordsLeft = m.wordsLeft := by simp only [wordsLeft, m.pc_of_outer outer]
      rw [results_of_ne_step (ne_step_of_outer outer), ← same]
      exact further _

theorem after_of_passed (kinds : ∀ r ∈ requests, r = .step ∨ r = .tick ∨ r.onKeys)
    (passed : ∀ report ∈ m.results requests, passedWord report) :
    (m.after requests).pc = m.pc + 2 * (m.results requests).length ∧ m.SameBut passingParts (m.after requests) := by
  induction requests generalizing m with
  | nil => exact ⟨(Int.add_zero m.pc).symm, fun p _ => by cases p <;> rfl⟩
  | cons r rest ih =>
    have further (m' : Machine) := ih (m := m') fun r' mem => kinds r' (List.mem_cons_of_mem r mem)
    rcases kinds r List.mem_cons_self with rfl | outer
    case inl =>
      rw [results_step] at passed ⊢
      have first := passes_of_passedWord (passed _ List.mem_cons_self)
      have ⟨pc, same⟩ := further _ fun report mem => passed report (List.mem_cons_of_mem _ mem)
      refine ⟨?_, first.same.trans same⟩
      calc (m.step.machine.after rest).pc
        _ = m.step.machine.pc + 2 * (m.step.machine.results rest).length := pc
        _ = m.pc + 2 * (m.step.result :: m.step.machine.results rest).length := by
          rw [first.pc, List.length_cons]
          omega
    case inr =>
      rw [results_of_ne_step (ne_step_of_outer outer)] at passed ⊢
      have ⟨pc, same⟩ := further _ passed
      rw [m.pc_of_outer outer] at pc
      exact ⟨pc, ((m.serve_sameBut_restless outer).mono (by decide)).trans same⟩

theorem stuck_at_end (none_left : 4096 ≤ m.pc + 1) : m.Stuck none (.memoryAccess m.pc) :=
  .unread (Word.fetch_of_outside _ (.inr none_left))

-- From a program counter in or behind memory, no more words without an instruction are passed over in a row than there
-- are words left, so at most 2048. Once that many are passed over, the next cycle faults, at the end of memory or at
-- a program counter behind it, and memory, registers, stack and display are still the same.
theorem data_runs_out (low : 0 ≤ m.pc) (kinds : ∀ r ∈ requests, r = .step ∨ r = .tick ∨ r.onKeys) :
    ((m.results requests).takeWhile passedWord).length ≤ m.wordsLeft ∧ m.wordsLeft ≤ 2048 ∧
      ((∀ report ∈ m.results requests, passedWord report) → (m.results requests).length = m.wordsLeft →
        ∃ c a, (m.after requests).step.result = .ok c ∧ c.word = none ∧ c.fault = some (.memoryAccess a) ∧
          (m.pc % 2 = 0 → m.pc ≤ 4096 → a = 4096) ∧ (m.pc % 2 = 1 → m.pc ≤ 4095 → a = 4095) ∧
          (4096 < m.pc → a = m.pc) ∧
          m.SameBut passingParts (m.after requests) ∧ m.SameBut passingParts (m.after requests).step.machine) := by
  refine ⟨passed_le_wordsLeft kinds, by simp only [wordsLeft, Memory.size]; omega, fun passed all => ?_⟩
  have ⟨pc, same⟩ := after_of_passed kinds passed
  rw [all] at pc
  simp only [wordsLeft, Memory.size] at pc
  -- The program counter has come to the last byte of memory or behind it.
  have stuck : (m.after requests).Stuck none (.memoryAccess (m.after requests).pc) := stuck_at_end (by omega)
  refine ⟨_, (m.after requests).pc, congrArg Turn.result stuck.step, rfl, rfl, ?even, ?odd, ?behind, same, ?_⟩
  case even => omega
  case odd => omega
  case behind => omega
  exact same.trans (stuck.step_sameBut.mono (by decide))

def nearEnd : Machine :=
  (holding [0x1F, 0xFC]).after [.step]

def nearLast : Machine :=
  (holding [0x1F, 0xFB]).after [.step]

theorem zeros_run_out_at_end :
    (∃ c, (nearEnd.after [.step, .press 3, .step]).step.result = .ok c ∧ c.fault = some (.memoryAccess 4096)) ∧
      ∃ c, (nearLast.after [.step, .press 3, .step]).step.result = .ok c ∧ c.fault = some (.memoryAccess 4095) := by
  have kinds : ∀ r ∈ [Request.step, .press 3, .step], r = .step ∨ r = .tick ∨ r.onKeys := by simp [Request.onKeys]
  have even : nearEnd.pc = 4092 := by decide +kernel
  have odd : nearLast.pc = 4091 := by decide +kernel
  obtain ⟨_, _, fromEnd⟩ := data_runs_out (m := nearEnd) (by omega) kinds
  obtain ⟨_, _, fromLast⟩ := data_runs_out (m := nearLast) (by omega) kinds
  obtain ⟨c, _, report, _, fault, atEnd, _⟩ := fromEnd (by decide +kernel) (by rw [wordsLeft, even]; rfl)
  obtain ⟨c', _, report', _, fault', _, atLast, _⟩ := fromLast (by decide +kernel) (by rw [wordsLeft, odd]; rfl)
  rw [atEnd (by omega) (by omega)] at fault
  rw [atLast (by omega) (by omega)] at fault'
  exact ⟨⟨c, report, fault⟩, c', report', fault'⟩

end Machine
end Chip8
