import Chip8.Proofs.Inputs

namespace Chip8
namespace Machine

-- The timers are counted down `n` times, and an attached speaker has beeped if the tone has ended meanwhile.
def elapsed (m : Machine) (n : Nat) : Machine :=
  { m with
    delay := UInt8.ofNat (m.delay.toNat - n)
    sound := UInt8.ofNat (m.sound.toNat - n)
    speaker := if 1 ≤ m.sound.toNat ∧ m.sound.toNat ≤ n then m.speaker.map (· + 1) else m.speaker }

def attempted (m : Machine) (w : UInt16) : Machine :=
  { m with word := w.toNat, draw := false }

def answered (m : Machine) (w : UInt16) (key : Fin 16) : Machine :=
  { m.setV (Word.fields w.toNat).x (UInt8.ofNat key.val) with pc := m.pc + 2, word := w.toNat, draw := false }

structure Waits (m : Machine) (w : UInt16) : Prop where
  fetch : Word.fetch m.memory.bytes m.pc = .ok w
  await : (Word.fields w.toNat).Is 0xF 0x0A
  up    : ∀ key : Fin 16, m.keys.get key = false

variable {m : Machine} {w : UInt16} {key : Fin 16}

theorem elapsed_zero (m : Machine) : m.elapsed 0 = m := by
  have silent : ¬(1 ≤ m.sound.toNat ∧ m.sound.toNat ≤ 0) := by omega
  simp only [elapsed, Nat.sub_zero, UInt8.ofNat_toNat, if_neg silent]

theorem toNat_count (timer : UInt8) (n : Nat) : (UInt8.ofNat (timer.toNat - n)).toNat = timer.toNat - n :=
  UInt8.toNat_ofNat_of_lt' (Nat.lt_of_le_of_lt (Nat.sub_le _ _) timer.toNat_lt)

theorem tickDown_count (timer : UInt8) (n : Nat) :
    tickDown (UInt8.ofNat (timer.toNat - n)) = UInt8.ofNat (timer.toNat - (n + 1)) := by
  apply UInt8.toNat_inj.mp
  rw [toNat_tickDown, toNat_count, toNat_count, Nat.sub_sub]

theorem toneEnds_elapsed (m : Machine) (n : Nat) : (m.elapsed n).toneEnds = decide (m.sound.toNat = n + 1) := by
  have count := toNat_count m.sound n
  rw [toneEnds, Bool.beq_eq_decide_eq, decide_eq_decide, ← UInt8.toNat_inj]
  show (UInt8.ofNat (m.sound.toNat - n)).toNat = 1 ↔ _
  omega

theorem tick_elapsed (m : Machine) (n : Nat) : (m.elapsed n).tick = m.elapsed (n + 1) := by
  ext1
  case delay => exact tickDown_count m.delay n
  case sound => exact tickDown_count m.sound n
  case speaker =>
    simp only [tick, toneEnds_elapsed, decide_eq_true_eq]
    by_cases ends : m.sound.toNat = n + 1
    case pos =>
      have notYet : ¬(1 ≤ m.sound.toNat ∧ m.sound.toNat ≤ n) := by omega
      have now : 1 ≤ m.sound.toNat ∧ m.sound.toNat ≤ n + 1 := by omega
      simp only [elapsed, if_pos ends, if_neg notYet, if_pos now]
    case neg =>
      have same : 1 ≤ m.sound.toNat ∧ m.sound.toNat ≤ n + 1 ↔ 1 ≤ m.sound.toNat ∧ m.sound.toNat ≤ n := by omega
      simp only [elapsed, if_neg ends, same]
  all_goals rfl

theorem result_finish_elapsed (m : Machine) (w : UInt16) (n : Nat) :
    ((m.elapsed n).finish w none []).result =
      .ok { word := some w, fault := none, draw := m.draw, tone := decide (m.sound.toNat = n + 1) } := by
  rw [finish, toneEnds_elapsed]
  rfl

theorem elapsed_sameBut (m : Machine) (n n' : Nat) :
    (m.elapsed n).SameBut [.delay, .sound, .beeps] (m.elapsed n') := by
  intro p other
  cases p <;> simp_all [Part.Same, elapsed]

theorem exists_lowestKey (down : ∃ key : Fin 16, m.keys.get key = true) : ∃ key, m.lowestKey? = some key := by
  obtain ⟨key, down⟩ := down
  cases lowest : m.lowestKey? with
  | some least => exact ⟨least, rfl⟩
  | none       => cases down.symm.trans (lowestKey?_eq_none.mp lowest key)

theorem lowestKey?_eq_some (lowest : m.lowestKey? = some key) :
    m.keys.get key = true ∧ ∀ k < key, m.keys.get k = false := by
  obtain ⟨down, i, h, rfl, before⟩ := List.find?_eq_some_iff_getElem.mp lowest
  refine ⟨down, fun k less => ?_⟩
  rw [List.getElem_finRange] at less
  have up := before k.val less
  rw [List.getElem_finRange] at up
  exact Bool.not_eq_true' _ ▸ up

theorem step_of_key (fetch : Word.fetch m.memory.bytes m.pc = .ok w) (await : (Word.fields w.toNat).Is 0xF 0x0A)
    (lowest : m.lowestKey? = some key) : m.step = (m.answered w key).finish w none [] := by
  have spells : (Word.fields w.toNat).Spells (.awaitKey (Word.fields w.toNat).x) := ⟨await, rfl⟩
  have lowest' : (m.advance w.toNat).lowestKey? = some key := lowest
  refine step_of_done fetch ((execute_of_spells spells).trans ?_)
  simp only [Instruction.run, lowest']
  rfl

namespace Waits

variable (waits : m.Waits w)

include waits

theorem step : m.step = (m.attempted w).finish w none [] := by
  have spells : (Word.fields w.toNat).Spells (.awaitKey (Word.fields w.toNat).x) := ⟨waits.await, rfl⟩
  have none : (m.advance w.toNat).lowestKey? = none := lowestKey?_eq_none.mpr waits.up
  have back : (m.advance w.toNat).pc - 2 = m.pc := Int.add_sub_cancel m.pc 2
  refine step_of_done waits.fetch ((execute_of_spells spells).trans ?_)
  simp only [Instruction.run, none, back]
  rfl

theorem next : m.step.machine.Waits w := by
  rw [waits.step]
  exact ⟨waits.fetch, waits.await, waits.up⟩

theorem cycles (n : Nat) : (m.cycles n).Waits w := by
  induction n with
  | zero      => exact waits
  | succ n ih => exact cycles_succ m n ▸ ih.next

theorem cycles_succ_eq_tick (n : Nat) : m.cycles (n + 1) = ((m.cycles n).attempted w).tick :=
  (cycles_succ m n).trans (congrArg Turn.machine (waits.cycles n).step)

-- Whether the word is attempted for the first time or after some cycles, only time has passed.
theorem attempted_cycles (n : Nat) : (m.cycles n).attempted w = (m.attempted w).elapsed n := by
  induction n with
  | zero => exact (elapsed_zero _).symm
  | succ n ih =>
    calc (m.cycles (n + 1)).attempted w
      _ = ((m.cycles n).attempted w).tick   := by rw [waits.cycles_succ_eq_tick]; rfl
      _ = ((m.attempted w).elapsed n).tick  := by rw [ih]
      _ = (m.attempted w).elapsed (n + 1)   := tick_elapsed _ n

theorem cycles_succ_eq_elapsed (n : Nat) : m.cycles (n + 1) = (m.attempted w).elapsed (n + 1) := by
  rw [waits.cycles_succ_eq_tick, waits.attempted_cycles, tick_elapsed]

theorem result_cycles (n : Nat) :
    (m.cycles n).step.result =
      .ok { word := some w, fault := none, draw := false, tone := decide (m.sound.toNat = n + 1) } := by
  rw [(waits.cycles n).step, waits.attempted_cycles]
  exact result_finish_elapsed (m.attempted w) w n

theorem step_with_keys (n : Nat) {keys : Vector Bool 16} (lowest : (m.withKeys keys).lowestKey? = some key) :
    ((m.cycles n).withKeys keys).step = (((m.withKeys keys).answered w key).elapsed n).finish w none [] := by
  have held : ((m.cycles n).withKeys keys).answered w key = ((m.withKeys keys).answered w key).elapsed n :=
    congrArg (fun m' => (m'.withKeys keys).answered w key) (waits.attempted_cycles n)
  have fetch : Word.fetch ((m.cycles n).withKeys keys).memory.bytes ((m.cycles n).withKeys keys).pc = .ok w :=
    (waits.cycles n).fetch
  rw [step_of_key fetch waits.await lowest, held]

end Waits

-- While no key is down, the word Fx0A ends each cycle normally and changes nothing but the timers and the last word,
-- and the tone ends with the cycle that takes the sound timer from one to zero. Once there are keys down, however many
-- cycles later, the word puts the lowest of them in its register and is passed over, and the cycle reports the same as
-- one more without keys. Apart from the timers, the machine is then as if the keys had been down right away.
theorem waiting_only_passes_time (fetch : Word.fetch m.memory.bytes m.pc = .ok w)
    (await : (Word.fields w.toNat).Is 0xF 0x0A) (up : ∀ key : Fin 16, m.keys.get key = false) :
    (∀ n, (m.cycles n).step.result =
      .ok { word := some w, fault := none, draw := false, tone := decide (m.sound.toNat = n + 1) }) ∧
    (∀ n, m.cycles (n + 1) = ({ m with word := w.toNat, draw := false }).elapsed (n + 1)) ∧
    ∀ n (keys : Vector Bool 16), (∃ key : Fin 16, keys.get key = true) →
      let held := (m.cycles n).withKeys keys
      held.step.result = (m.cycles n).step.result ∧
      (∃ key : Fin 16, (keys.get key = true ∧ ∀ k < key, keys.get k = false) ∧
        held.step.machine = ({ m.setV (Word.fields w.toNat).x (UInt8.ofNat key.val) with
          keys, pc := m.pc + 2, word := w.toNat, draw := false }).elapsed (n + 1)) ∧
      (m.withKeys keys).step.machine.SameBut [.delay, .sound, .beeps] held.step.machine := by
  have waits : m.Waits w := ⟨fetch, await, up⟩
  refine ⟨waits.result_cycles, waits.cycles_succ_eq_elapsed, fun n keys down => ?_⟩
  obtain ⟨key, lowest⟩ := exists_lowestKey (m := m.withKeys keys) down
  -- With `n = 0` the keys were down right away.
  have left (n : Nat) :
      ((m.cycles n).withKeys keys).step.machine = ((m.withKeys keys).answered w key).elapsed (n + 1) := by
    rw [waits.step_with_keys n lowest, ← tick_elapsed]
    rfl
  have start : (m.withKeys keys).step.machine = ((m.withKeys keys).answered w key).elapsed 1 := left 0
  refine ⟨?_, ⟨key, lowestKey?_eq_some lowest, left n⟩, ?_⟩
  · rw [waits.result_cycles, waits.step_with_keys n lowest]
    exact result_finish_elapsed _ w n
  · rw [start, left n]
    exact elapsed_sameBut _ _ _

def waiting : Machine :=
  (holding [0x60, 0x02, 0xF0, 0x18, 0xF5, 0x0A]).after [.step, .step]

def threeAndSeven : Vector Bool 16 :=
  Vector.ofFn fun key => key.val = 3 ∨ key.val = 7

theorem lowest_key_ends_wait :
    let held := (waiting.cycles 3).withKeys threeAndSeven
    Word.fetch waiting.memory.bytes waiting.pc = .ok 0xF50A ∧
      (waiting.cycles 0).step.result = .ok { word := some 0xF50A, fault := none, draw := false, tone := true } ∧
      (waiting.cycles 3).pc = waiting.pc ∧ held.step.machine.pc = waiting.pc + 2 ∧
      held.step.machine.v.get (Word.fields 0xF50A).x = 3 := by
  intro held
  obtain ⟨fetch, sound⟩ : Word.fetch waiting.memory.bytes waiting.pc = .ok 0xF50A ∧ waiting.sound.toNat = 1 := by
    decide +kernel
  have least : ∀ key : Fin 16, threeAndSeven.get key = true ∧ (∀ k < key, threeAndSeven.get k = false) →
      UInt8.ofNat key.val = 3 := by
    decide +kernel
  obtain ⟨results, left, ends⟩ := waiting_only_passes_time fetch (by decide) (by decide +kernel)
  obtain ⟨_, ⟨key, lowest, answered⟩, _⟩ := ends 3 threeAndSeven (by decide +kernel)
  refine ⟨fetch, ?_, ?_, ?_, ?_⟩
  · rw [results 0, sound]
    rfl
  · rw [left 2, elapsed]
  · rw [answered, elapsed]
  · rw [answered, elapsed, ← least key lowest]
    exact waiting.get_setV (Word.fields 0xF50A).x (UInt8.ofNat key.val)

end Machine
end Chip8
