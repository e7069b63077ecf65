import Chip8.Proofs.Faults
import Chip8.Proofs.Words

namespace Chip8
namespace Word

def Undescribed (w : UInt16) : Prop :=
  w.toNat / 0x1000 = 0x0 ∧ w.toNat ≠ 0x00E0 ∧ w.toNat ≠ 0x00EE ∨
  w.toNat / 0x1000 = 0x8 ∧ w.toNat % 0x10 ∉ [0x0, 0x1, 0x2, 0x3, 0x4, 0x5, 0x6, 0x7, 0xE] ∨
  w.toNat / 0x1000 = 0xE ∧ w.toNat % 0x100 ∉ [0x9E, 0xA1] ∨
  w.toNat / 0x1000 = 0xF ∧ w.toNat % 0x100 ∉ [0x07, 0x0A, 0x15, 0x18, 0x1E, 0x29, 0x33, 0x55, 0x65]

instance (w : UInt16) : Decidable (Undescribed w) :=
  inferInstanceAs (Decidable (_ ∨ _))

def HasStrayDigit (w : UInt16) : Prop :=
  w.toNat / 0x1000 = 0x0 ∧ w.toNat / 0x100 ≠ 0x0 ∧ w.toNat % 0x100 ∈ [0xE0, 0xEE]

instance (w : UInt16) : Decidable (HasStrayDigit w) :=
  inferInstanceAs (Decidable (_ ∧ _))

end Word

namespace Instruction

variable {f : Fields}

theorem ofSystem?_eq_none : ofSystem? f = none ↔ f.nn ∉ [0xE0, 0xEE] := by
  simp only [ofSystem?]
  split <;> simp_all

theorem ofOperation?_eq_none :
    ofOperation? f = none ↔ f.n ∉ [0x0, 0x1, 0x2, 0x3, 0x4, 0x5, 0x6, 0x7, 0xE] := by
  simp only [ofOperation?]
  split <;> simp_all

theorem ofKeys?_eq_none : ofKeys? f = none ↔ f.nn ∉ [0x9E, 0xA1] := by
  simp only [ofKeys?]
  split <;> simp_all

theorem ofMisc?_eq_none :
    ofMisc? f = none ↔ f.nn ∉ [0x07, 0x0A, 0x15, 0x18, 0x1E, 0x29, 0x33, 0x55, 0x65] := by
  simp only [ofMisc?]
  split <;> simp_all

theorem ofFields?_eq_none :
    ofFields? f = none ↔
      f.family = 0x0 ∧ ofSystem? f = none ∨ f.family = 0x8 ∧ ofOperation? f = none ∨
      f.family = 0xE ∧ ofKeys? f = none ∨ f.family = 0xF ∧ ofMisc? f = none := by
  simp only [ofFields?]
  split
  case h_16 =>
    have last : f.family = 0xF := by grind
    simp [last]
  all_goals simp [*]

theorem ofWord?_eq_none (w : UInt16) :
    ofWord? w.toNat = none ↔
      w.toNat / 0x1000 = 0x0 ∧ w.toNat % 0x100 ∉ [0xE0, 0xEE] ∨
      w.toNat / 0x1000 = 0x8 ∧ w.toNat % 0x10 ∉ [0x0, 0x1, 0x2, 0x3, 0x4, 0x5, 0x6, 0x7, 0xE] ∨
      w.toNat / 0x1000 = 0xE ∧ w.toNat % 0x100 ∉ [0x9E, 0xA1] ∨
      w.toNat / 0x1000 = 0xF ∧ w.toNat % 0x100 ∉ [0x07, 0x0A, 0x15, 0x18, 0x1E, 0x29, 0x33, 0x55, 0x65] := by
  rw [ofWord?, ofFields?_eq_none, ofSystem?_eq_none, ofOperation?_eq_none, ofKeys?_eq_none, ofMisc?_eq_none]
  simp only [List.mem_cons, List.not_mem_nil, Fin.ext_iff, Word.val_family, Word.val_n, Word.nn_eq_iff]
  exact Iff.rfl

theorem ofWord?_eq_none_iff_undescribed (w : UInt16) :
    ofWord? w.toNat = none ↔ Word.Undescribed w ∧ ¬Word.HasStrayDigit w := by
  rw [ofWord?_eq_none]
  by_cases family : w.toNat / 0x1000 = 0x0
  case pos =>
    simp only [Word.Undescribed, Word.HasStrayDigit, family, List.mem_cons, List.not_mem_nil, true_and, false_and,
      reduceCtorEq, or_false]
    omega
  case neg => simp only [Word.Undescribed, Word.HasStrayDigit, family, false_and, false_or, not_false_eq_true, and_true]

theorem ofWord?_of_stray_digit {w : UInt16} (stray : Word.HasStrayDigit w) :
    ofWord? w.toNat = some .clear ∨ ofWord? w.toNat = some .ret := by
  have ⟨family, _, low⟩ := stray
  rw [← Word.val_family] at family
  have system : ofWord? w.toNat = ofSystem? (Word.fields w.toNat) := by
    simp only [ofWord?, ofFields?, show (Word.fields w.toNat).family = 0x0 from Fin.ext family]
  rw [system]
  simp only [List.mem_cons, List.not_mem_nil, or_false] at low
  rcases low with clear | ret
  · have nn : (Word.fields w.toNat).nn = 0xE0 := Word.nn_eq_iff.mpr clear
    exact .inl (by simp only [ofSystem?, nn])
  · have nn : (Word.fields w.toNat).nn = 0xEE := Word.nn_eq_iff.mpr ret
    exact .inr (by simp only [ofSystem?, nn])

end Instruction

namespace Machine

variable {m : Machine}

theorem execute_unknown_iff {word word' : Int} :
    (∃ m', m.execute word = .fault (.unknownWord word') m') ↔
      Instruction.ofWord? word = none ∧ word' = word := by
  cases decode : Instruction.ofWord? word with
  | none =>
    rw [execute_of_no_instruction decode]
    simp [eq_comm]
  | some i =>
    rw [execute_of_instruction decode]
    simp only [reduceCtorEq, false_and, iff_false]
    rintro ⟨m', run⟩
    exact Instruction.fault?_ne_unknownWord (Instruction.fault?_of_run run)

theorem step_unknown_iff {w : UInt16} (fetch : Word.fetch m.memory.bytes m.pc = .ok w) :
    (∃ c, m.step.result = .ok c ∧ c.status = .decodeFailure) ↔ Instruction.ofWord? w.toNat = none := by
  constructor
  case mp =>
    rintro ⟨c, result, status⟩
    cases fault : c.fault with
    | none => simp [Cycle.status, fault] at status
    | some f =>
      simp only [Cycle.status, fault] at status
      rcases stuck_or_unknown result fault with stuck | ⟨w', _, fetch', rfl, execute, _⟩
      · exact absurd status stuck.status
      · cases fetch.symm.trans fetch'
        exact (execute_unknown_iff.mp ⟨_, execute⟩).left
  case mpr =>
    intro decode
    rw [step_of_fault fetch (execute_of_no_instruction decode)]
    exact ⟨_, rfl, rfl⟩

theorem report_of_unknown {w : UInt16} (fetch : Word.fetch m.memory.bytes m.pc = .ok w) {c : Cycle}
    (result : m.step.result = .ok c) (status : c.status = .decodeFailure) :
    c.word = some w ∧ c.fault = some (.unknownWord w.toNat) := by
  have decode := (step_unknown_iff fetch).mp ⟨c, result, status⟩
  rw [step_of_fault fetch (execute_of_no_instruction decode)] at result
  cases result
  exact ⟨rfl, rfl⟩

-- Exactly the words that the instruction set does not describe are reported as unknown, whatever the state
-- of the machine, but for those with a stray digit, which clear the display and return.
theorem unknown_iff_undescribed (m : Machine) (w : UInt16) :
    ((∃ m', m.execute w.toNat = .fault (.unknownWord w.toNat) m') ↔
        Word.Undescribed w ∧ ¬Word.HasStrayDigit w) ∧
      (∀ word m', m.execute w.toNat = .fault (.unknownWord word) m' → word = w.toNat) ∧
      (Word.HasStrayDigit w →
        Instruction.ofWord? w.toNat = some .clear ∨ Instruction.ofWord? w.toNat = some .ret) ∧
      (Word.fetch m.memory.bytes m.pc = .ok w →
        ((∃ c, m.step.result = .ok c ∧ c.status = .decodeFailure) ↔
          Word.Undescribed w ∧ ¬Word.HasStrayDigit w) ∧
        ∀ c, m.step.result = .ok c → c.status = .decodeFailure →
          c.word = some w ∧ c.fault = some (.unknownWord w.toNat)) := by
  refine ⟨?executed, ?named, Instruction.ofWord?_of_stray_digit, fun fetch => ⟨?stepped, fun c => report_of_unknown fetch⟩⟩
  case executed =>
    rw [execute_unknown_iff, ← Instruction.ofWord?_eq_none_iff_undescribed]
    exact and_iff_left rfl
  case named => exact fun word m' execute => (execute_unknown_iff.mp ⟨m', execute⟩).right
  case stepped => rw [step_unknown_iff fetch, Instruction.ofWord?_eq_none_iff_undescribed]

theorem last_digit_eight_is_unknown :
    Word.fetch ((powerOn .standard .clip 16 (.cycle #[]) none).after [.load [0x81, 0x28]]).memory.bytes 0x200 =
        .ok 0x8128 ∧
      ∃ c, ((powerOn .standard .clip 16 (.cycle #[]) none).after [.load [0x81, 0x28]]).step.result = .ok c ∧
        c.status = .decodeFailure := by
  have fetch : Word.fetch ((powerOn .standard .clip 16 (.cycle #[]) none).after
      [.load [0x81, 0x28]]).memory.bytes 0x200 = .ok 0x8128 := by
    decide +kernel
  have ⟨_, _, _, stepped⟩ :=
    unknown_iff_undescribed ((powerOn .standard .clip 16 (.cycle #[]) none).after [.load [0x81, 0x28]]) 0x8128
  exact ⟨fetch, (stepped fetch).left.mpr (by decide)⟩

theorem stray_digit_is_carried_out :
    Word.Undescribed 0x01E0 ∧
      (¬∃ word m', (powerOn .standard .clip 16 (.cycle #[]) none).execute 0x01E0 =
        .fault (.unknownWord word) m') ∧
      ((powerOn .standard .clip 16 (.cycle #[]) none).after [.load [0x01, 0xE0]]).step.result =
        .ok { word := some 0x01E0, fault := none, draw := true, tone := false } := by
  refine ⟨by decide, ?_, by decide +kernel⟩
  rintro ⟨word, m', execute⟩
  cases execute

end Machine
end Chip8
