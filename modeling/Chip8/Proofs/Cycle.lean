import Chip8.Machine.Cycle
import Chip8.Proofs.Execution
import Chip8.Proofs.Words

namespace Chip8

theorem Word.fetch_eq_ok {size : Nat} {bytes : Vector UInt8 size} {a : Int} {w : UInt16}
    (h : Word.fetch bytes a = .ok w) : 0 ≤ a ∧ a + 1 < size := by
  simp only [Word.fetch] at h
  split at h
  · assumption
  · cases h

theorem Word.fetch_eq_error {size : Nat} {bytes : Vector UInt8 size} {a : Int} {f : Fault}
    (h : Word.fetch bytes a = .error f) : f = .memoryAccess a := by
  simp only [Word.fetch] at h
  split at h <;> cases h
  rfl

theorem toNat_tickDown (timer : UInt8) : (tickDown timer).toNat = timer.toNat - 1 := by
  simp only [tickDown]
  split
  case isTrue h => simp [h]
  case isFalse h =>
    have pos : 1 ≤ timer := by
      rw [UInt8.le_iff_toNat_le]
      exact Nat.pos_of_ne_zero fun h0 => h (UInt8.toNat_inj.mp h0)
    rw [UInt8.toNat_sub_of_le timer 1 pos]
    rfl

namespace Machine

variable {m m' : Machine} {w : UInt16} {i : Instruction} {f : Fault} {word : Option UInt16}

theorem settle_of_ne_unknownWord {start : Int} (h : ∀ w, f ≠ .unknownWord w) :
    m.settle start f = { m with pc := start } := by
  cases f
  case unknownWord word => exact absurd rfl (h word)
  all_goals rfl

-- The cycle cannot get past a fault: the word cannot be fetched, or its instruction fails.
inductive Stuck (m : Machine) : Option UInt16 → Fault → Prop
  | unread {f : Fault} (fetch : Word.fetch m.memory.bytes m.pc = .error f) : Stuck m none f
  | fault {w : UInt16} {i : Instruction} {f : Fault} (fetch : Word.fetch m.memory.bytes m.pc = .ok w)
    (decode : Instruction.ofWord? w.toNat = some i) (fault : i.fault? (m.advance w.toNat) = some f) :
    Stuck m w f

theorem Stuck.ne_unknownWord (h : m.Stuck word f) : ∀ w, f ≠ .unknownWord w := by
  cases h with
  | unread fetch =>
    cases Word.fetch_eq_error fetch
    exact fun _ hf => nomatch hf
  | fault _ _ fault => exact fun _ hf => Instruction.fault?_ne_unknownWord (hf ▸ fault)

def passedOver (m : Machine) (word : Option UInt16) (pc : Int) : Machine :=
  { m with pc, draw := false, word := word.elim m.word (·.toNat) }

theorem execute_of_instruction {word : Int} (decode : Instruction.ofWord? word = some i) :
    m.execute word = i.run (m.advance word) := by
  simp only [execute, decode]

theorem execute_of_spells {word : Int} (spells : (Word.fields word).Spells i) :
    m.execute word = i.run (m.advance word) :=
  execute_of_instruction (Instruction.ofFields?_of_spells spells)

theorem execute_of_no_instruction {word : Int} (decode : Instruction.ofWord? word = none) :
    m.execute word = .fault (.unknownWord word) (m.advance word) := by
  simp only [execute, decode]

theorem step_of_unread (fetch : Word.fetch m.memory.bytes m.pc = .error f) :
    m.step = { m with draw := false }.fail m.pc none f := by
  simp only [step, fetch]

theorem step_of_fault (fetch : Word.fetch m.memory.bytes m.pc = .ok w)
    (run : m.execute w.toNat = .fault f m') : m.step = m'.fail m.pc w f := by
  simp only [step, fetch, run]

theorem step_of_done (fetch : Word.fetch m.memory.bytes m.pc = .ok w)
    (run : m.execute w.toNat = .done m') : m.step = m'.finish w none [] := by
  simp only [step, fetch, run]

theorem step_of_crash {c : Crash} (fetch : Word.fetch m.memory.bytes m.pc = .ok w)
    (run : m.execute w.toNat = .crash c m') : m.step = { machine := m', result := .error c, notices := [] } := by
  simp only [step, fetch, run]

theorem Stuck.execute (h : m.Stuck (some w) f) : m.execute w.toNat = .fault f (m.advance w.toNat) := by
  cases h with
  | fault _ decode fault => exact (execute_of_instruction decode).trans (Instruction.run_of_fault fault)

theorem Stuck.step (h : m.Stuck word f) :
    m.step = (m.passedOver word m.pc).finish word (some f) ((m.passedOver word m.pc).faultNotices m.pc f) := by
  have known := h.ne_unknownWord
  cases h with
  | unread fetch =>
    rw [step_of_unread fetch]
    dsimp only [fail]
    rw [settle_of_ne_unknownWord known]
    rfl
  | fault fetch decode fault =>
    rw [step_of_fault fetch (Stuck.fault fetch decode fault).execute]
    dsimp only [fail]
    rw [settle_of_ne_unknownWord known]
    rfl

end Machine

inductive Course (m : Machine) : Turn → Prop
  | stuck {word : Option UInt16} {f : Fault} (stuck : m.Stuck word f) :
    Course m ((m.passedOver word m.pc).finish word (some f) ((m.passedOver word m.pc).faultNotices m.pc f))
  | unknown {w : UInt16} (fetch : Word.fetch m.memory.bytes m.pc = .ok w)
    (decode : Instruction.ofWord? w.toNat = none) :
    Course m ((m.advance w.toNat).fail m.pc w (.unknownWord w.toNat))
  | crash {w : UInt16} {i : Instruction} {c : Crash} {m' : Machine}
    (fetch : Word.fetch m.memory.bytes m.pc = .ok w) (decode : Instruction.ofWord? w.toNat = some i)
    (run : i.run (m.advance w.toNat) = .crash c m') :
    Course m { machine := m', result := .error c, notices := [] }
  | done {w : UInt16} {i : Instruction} {m' : Machine} (fetch : Word.fetch m.memory.bytes m.pc = .ok w)
    (decode : Instruction.ofWord? w.toNat = some i) (run : i.run (m.advance w.toNat) = .done m') :
    Course m (m'.finish w none [])

theorem Machine.course (m : Machine) : Course m m.step := by
  cases fetch : Word.fetch m.memory.bytes m.pc with
  | error f =>
    have stuck := Stuck.unread fetch
    exact stuck.step ▸ .stuck stuck
  | ok w =>
    cases decode : Instruction.ofWord? w.toNat with
    | none => exact step_of_fault fetch (execute_of_no_instruction decode) ▸ .unknown fetch decode
    | some i =>
      have he := execute_of_instruction (m := m) decode
      cases run : i.run (m.advance w.toNat) with
      | done m' => exact step_of_done fetch (he.trans run) ▸ .done fetch decode run
      | crash c m' => exact step_of_crash fetch (he.trans run) ▸ .crash fetch decode run
      | fault f m' =>
        have stuck := Stuck.fault fetch decode (Instruction.fault?_of_run run)
        exact stuck.step ▸ .stuck stuck

theorem Fault.status_ne_normal (f : Fault) : f.status ≠ .normal := by
  cases f <;> simp [status]

namespace Machine

def executed? (m : Machine) : Option UInt16 :=
  match m.step.result with
  | .ok { word, fault := none, .. } => word
  | _                               => none

variable {m : Machine} {w : UInt16}

theorem exists_run_of_executed (h : m.executed? = some w) :
    ∃ i m', Word.fetch m.memory.bytes m.pc = .ok w ∧ Instruction.ofWord? w.toNat = some i ∧
      i.run (m.advance w.toNat) = .done m' ∧ m.step = m'.finish w none [] := by
  simp only [executed?] at h
  have course := m.course
  generalize m.step = t at course h ⊢
  cases course with
  | stuck | unknown | crash => cases h
  | done fetch decode run =>
    cases h
    exact ⟨_, _, fetch, decode, run, rfl⟩

theorem executed?_eq_some_iff :
    m.executed? = some w ↔
      Word.fetch m.memory.bytes m.pc = .ok w ∧ ∃ c, m.step.result = .ok c ∧ c.status = .normal := by
  constructor
  case mp =>
    intro h
    obtain ⟨_, _, fetch, _, _, step⟩ := exists_run_of_executed h
    exact ⟨fetch, _, congrArg Turn.result step, rfl⟩
  case mpr =>
    rintro ⟨fetch, c, result, status⟩
    simp only [executed?]
    have course := m.course
    generalize m.step = t at course result ⊢
    cases course with
    | @stuck _ f =>
      cases result
      exact absurd status f.status_ne_normal
    | unknown =>
      cases result
      cases status
    | crash => cases result
    | done fetch' =>
      cases fetch.symm.trans fetch'
      rfl

end Machine

end Chip8
