import Mathlib.Control.Monad.Basic
import Chip8.Proofs.Run

namespace Chip8
namespace Machine

variable {m m' : Machine}

def outerParts : List Part :=
  [.keys, .draw, .word, .delay, .sound, .beeps]

def restlessParts : List Part :=
  [.keys, .delay, .sound, .beeps]

theorem tick_sameBut (m : Machine) : m.SameBut [.delay, .sound, .beeps] m.tick := by
  intro p hp
  cases p <;> simp_all [Part.Same, tick]

-- The parts that decide whether a machine is stuck, and on what.
def decisiveParts : List Part :=
  [.memory, .pc, .index, .sp, .stack]

theorem Stuck.sameBut {word : Option UInt16} {f : Fault} {parts : List Part} (h : m.Stuck word f)
    (same : m.SameBut parts m') (apart : ∀ p ∈ decisiveParts, p ∉ parts) : m'.Stuck word f := by
  have memory : m'.memory = m.memory := same .memory (apart _ (by decide))
  have pc : m'.pc = m.pc := same .pc (apart _ (by decide))
  have index : m'.index = m.index := same .index (apart _ (by decide))
  have sp : m'.sp = m.sp := same .sp (apart _ (by decide))
  have stack : m'.stack = m.stack := same .stack (apart _ (by decide))
  cases h with
  | unread fetch => exact .unread (by rw [memory, pc, fetch])
  | @fault w i f fetch decode fault =>
    refine .fault (by rw [memory, pc, fetch]) decode ?_
    rw [← fault]
    exact i.fault?_congr (congrArg (· + 2) pc) index sp (congrArg Array.size stack)

theorem Stuck.status {word : Option UInt16} {f : Fault} (h : m.Stuck word f) : f.status ≠ .decodeFailure := by
  have known := h.ne_unknownWord
  cases f
  case unknownWord w => exact absurd rfl (known w)
  all_goals exact fun hf => nomatch hf

theorem Stuck.fetched {word : Option UInt16} {f : Fault} (h : m.Stuck word f) (w : UInt16) :
    word = some w ↔ Word.fetch m.memory.bytes m.pc = .ok w := by
  cases h with
  | unread fetch => simp [fetch]
  | fault fetch => simp [fetch]

theorem Stuck.step_sameBut {word : Option UInt16} {f : Fault} (h : m.Stuck word f) :
    m.SameBut outerParts m.step.machine := by
  rw [h.step]
  intro p hp
  cases p <;> simp_all [Part.Same, finish, passedOver, tick, outerParts]

structure Halted (m : Machine) (word : Option UInt16) (f : Fault) : Prop where
  stuck : m.Stuck word f
  draw  : m.draw = false
  word  : word.elim m.word (·.toNat) = m.word

theorem Stuck.step_halted {word : Option UInt16} {f : Fault} (h : m.Stuck word f) :
    m.step.machine.Halted word f := by
  refine ⟨h.sameBut h.step_sameBut (by decide), ?_, ?_⟩
  all_goals rw [h.step]
  case refine_1 => rfl
  case refine_2 => cases word <;> rfl

theorem Halted.sameBut {word : Option UInt16} {f : Fault} (h : m.Halted word f)
    (same : m.SameBut restlessParts m') : m'.Halted word f where
  stuck := h.stuck.sameBut same (by decide)
  draw  := by
    have kept : m'.draw = m.draw := same .draw (by decide)
    rw [kept]
    exact h.draw
  word  := by
    have kept : m'.word = m.word := same .word (by decide)
    rw [kept]
    exact h.word

theorem Halted.step_sameBut {word : Option UInt16} {f : Fault} (h : m.Halted word f) :
    m.SameBut restlessParts m.step.machine := by
  have draw := h.draw
  have kept := h.word
  rw [h.stuck.step]
  intro p hp
  cases p <;> simp_all [Part.Same, finish, passedOver, tick, restlessParts]

theorem serve_sameBut_restless (m : Machine) {r : Request} (kind : r = .tick ∨ r.onKeys) :
    m.SameBut restlessParts (m.serve r) := by
  rcases kind with rfl | onKeys
  · exact m.tick_sameBut.mono (by decide)
  · have ⟨keys, hs⟩ := m.serve_on_keys onKeys
    rw [hs]
    intro p hp
    cases p <;> simp_all [Part.Same, restlessParts]

theorem Halted.serve_sameBut {word : Option UInt16} {f : Fault} (h : m.Halted word f) {r : Request}
    (kind : r = .step ∨ r = .tick ∨ r.onKeys) : m.SameBut restlessParts (m.serve r) := by
  rcases kind with rfl | outer
  · exact h.step_sameBut
  · exact m.serve_sameBut_restless outer

theorem Halted.after_sameBut {word : Option UInt16} {f : Fault} (h : m.Halted word f)
    {requests : List Request} (kinds : ∀ r ∈ requests, r = .step ∨ r = .tick ∨ r.onKeys) :
    m.SameBut restlessParts (m.after requests) :=
  after_preserves (P := m.SameBut restlessParts)
    (fun _ r hr same => same.trans ((h.sameBut same).serve_sameBut (kinds r hr))) (fun p _ => by cases p <;> rfl)

theorem stuck_or_unknown {c : Cycle} {f : Fault} (result : m.step.result = .ok c) (fault : c.fault = some f) :
    m.Stuck c.word f ∨ ∃ w, c.word = some w ∧ Word.fetch m.memory.bytes m.pc = .ok w ∧
      f = .unknownWord w.toNat ∧ m.execute w.toNat = .fault f (m.advance w.toNat) ∧
      m.step.machine = (m.advance w.toNat).tick ∧ c.draw = false := by
  have course := m.course
  generalize m.step = t at course result ⊢
  cases course with
  | stuck stuck =>
    cases result
    cases fault
    exact .inl stuck
  | unknown fetch decode =>
    cases result
    cases fault
    exact .inr ⟨_, rfl, fetch, rfl, execute_of_no_instruction decode, rfl, rfl⟩
  | crash => cases result
  | done =>
    cases result
    cases fault

structure Faulted (m : Machine) (c : Cycle) (pc : Int) : Prop where
  same    : m.SameBut [.pc, .draw, .word, .delay, .sound, .beeps] m.step.machine
  pc      : m.step.machine.pc = pc
  draw    : m.step.machine.draw = false ∧ c.draw = false
  fetched : ∀ w, c.word = some w ↔ Word.fetch m.memory.bytes m.pc = .ok w
  word    : m.step.machine.word = c.word.elim m.word (·.toNat)
  delay   : m.step.machine.delay.toNat = m.delay.toNat - 1
  sound   : m.step.machine.sound.toNat = m.sound.toNat - 1

theorem Faulted.of_passedOver {c : Cycle} {pc : Int} (left : m.step.machine = (m.passedOver c.word pc).tick)
    (draw : c.draw = false) (fetched : ∀ w, c.word = some w ↔ Word.fetch m.memory.bytes m.pc = .ok w) :
    m.Faulted c pc := by
  refine { same := ?same, pc := ?pc, draw := ⟨?flag, draw⟩, fetched, word := ?word, delay := ?delay, sound := ?sound }
  all_goals rw [left]
  case same =>
    intro p hp
    cases p <;> simp_all [Part.Same, passedOver, tick]
  case delay => exact toNat_tickDown m.delay
  case sound => exact toNat_tickDown m.sound
  all_goals rfl

-- A cycle that faults changes nothing but timers, draw flag and last word, apart from the program counter,
-- which moves on past a word without an instruction. Carrying out the word by itself ends in the same
-- fault. A stack or memory fault comes back in every later cycle, whatever is done to keys and timers, and
-- nothing else changes any more.
theorem faults_are_atomic_and_stick {c : Cycle} {f : Fault} (result : m.step.result = .ok c)
    (fault : c.fault = some f) :
    m.Faulted c (if f.status = .decodeFailure then m.pc + 2 else m.pc) ∧
      (∀ w, c.word = some w →
        m.execute w.toNat = .fault f { m with pc := m.pc + 2, draw := false, word := w.toNat }) ∧
      (f.status ≠ .decodeFailure → ∀ requests : List Request,
        (∀ r ∈ requests, r = .step ∨ r = .tick ∨ r.onKeys) →
        m.step.machine.SameBut restlessParts (m.step.machine.after requests) ∧
        ∃ c', (m.step.machine.after requests).step.result = .ok c' ∧
          c'.fault = some f ∧ c'.word = c.word ∧ c'.draw = false) := by
  rcases stuck_or_unknown result fault with stuck | ⟨w, word, fetch, rfl, execute, left, draw⟩
  case inl =>
    have left := congrArg Turn.machine stuck.step
    have report := result.symm.trans (congrArg Turn.result stuck.step)
    have draw : c.draw = false := congrArg Cycle.draw (Except.ok.inj report)
    rw [if_neg stuck.status]
    refine ⟨.of_passedOver left draw stuck.fetched, fun w hw => (hw ▸ stuck).execute, fun _ requests kinds => ?_⟩
    -- Neither keys nor timers decide whether a machine is stuck, so none of the requests can free it.
    have same := stuck.step_halted.after_sameBut kinds
    have again := (stuck.step_halted.sameBut same).stuck.step
    exact ⟨same, _, congrArg Turn.result again, rfl, rfl, rfl⟩
  case inr =>
    rw [if_pos (show (Fault.unknownWord w.toNat).status = .decodeFailure from rfl)]
    have fetched : ∀ w', c.word = some w' ↔ Word.fetch m.memory.bytes m.pc = .ok w' := by
      simp [word, fetch]
    refine ⟨.of_passedOver ?_ draw fetched, fun w' hw => ?_, fun halts => absurd rfl halts⟩
    · rw [left, word]
      rfl
    · cases word.symm.trans hw
      exact execute

def shortOfMemory : Machine :=
  (powerOn .standard .clip 16 (.cycle #[]) none).after [.load [0xAF, 0xFE, 0xF0, 0x33], .step]

theorem short_of_memory_is_atomic_and_sticks :
    ∃ c, shortOfMemory.step.result = .ok c ∧ c.fault = some (.memoryAccess 4096) ∧
      shortOfMemory.Faulted c 0x202 ∧
      ∃ c', (shortOfMemory.step.machine.after [.press 3, .step, .tick]).step.result = .ok c' ∧
        c'.fault = some (.memoryAccess 4096) ∧ c'.word = c.word ∧ c'.draw = false := by
  have result : shortOfMemory.step.result =
      .ok { word := some 0xF033, fault := some (.memoryAccess 4096), draw := false, tone := false } := by
    decide +kernel
  have pc : shortOfMemory.pc = 0x202 := by decide +kernel
  have ⟨faulted, _, sticks⟩ := faults_are_atomic_and_stick result rfl
  have kinds : ∀ r ∈ [Request.press 3, .step, .tick], r = .step ∨ r = .tick ∨ r.onKeys := by
    simp [Request.onKeys]
  exact ⟨_, result, rfl, pc ▸ faulted, (sticks (by decide) _ kinds).right⟩

end Machine
end Chip8
