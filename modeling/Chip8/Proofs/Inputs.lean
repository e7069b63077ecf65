import Chip8.Proofs.Effects
import Chip8.Proofs.Range

namespace Chip8

namespace Part

def inputs : List Part :=
  [.keys, .random, .pixels, .delay, .sound, .beeps]

-- The parts in which machines come to differ that differ in one part.
def reach : Part → List Part
  | sound => [.sound, .beeps]
  | p     => [p]

variable {p : Part}

theorem mem_reach_self (p : Part) : p ∈ p.reach := by
  cases p <;> simp [reach]

theorem reach_subset_inputs (kind : p ∈ inputs) : p.reach ⊆ inputs := by
  cases p <;> simp_all [reach, inputs]

theorem beeps_mem_reach (mem : .sound ∈ p.reach) : .beeps ∈ p.reach := by
  cases p <;> simp_all [reach]

end Part

-- Two cycles leave machines that are the same but for the given parts, and report the same. Only their tones may
-- differ, if the sound timers do.
structure Turn.SameBut (parts : List Part) (t t' : Turn) : Prop where
  machine : t.machine.SameBut parts t'.machine
  report  : ∃ c c', t.result = .ok c ∧ t'.result = .ok c' ∧
    c' = { c with tone := c'.tone } ∧ (.sound ∉ parts → c' = c)

def Instruction.reads : Instruction → List Part
  | skip (.keyDown _) => [.keys]
  | skip (.keyUp _)   => [.keys]
  | awaitKey _        => [.keys]
  | random _ _        => [.random]
  | draw _ _ _        => [.pixels]
  | readDelay _       => [.delay]
  | _                 => []

def Fields.Reads (f : Fields) : Part → Prop
  | .keys   => f.Is 0xE 0x9E ∨ f.Is 0xE 0xA1 ∨ f.Is 0xF 0x0A
  | .random => f.family.val = 0xC
  | .pixels => f.family.val = 0xD
  | .delay  => f.Is 0xF 0x07
  | _       => False

instance (f : Fields) (p : Part) : Decidable (f.Reads p) :=
  match p with
  | .keys   => inferInstanceAs (Decidable (_ ∨ _))
  | .random => inferInstanceAs (Decidable (_ = _))
  | .pixels => inferInstanceAs (Decidable (_ = _))
  | .delay  => inferInstanceAs (Decidable (f.Is _ _))
  | .memory | .registers | .index | .pc | .sp | .stack | .sound | .edge | .draw | .word | .beeps => .isFalse id

theorem Fields.reads_of_mem_reach {f : Fields} {p q : Part} (mem : q ∈ p.reach) (reads : f.Reads q) : f.Reads p := by
  cases p
  case sound =>
    simp [Part.reach] at mem
    rcases mem with rfl | rfl <;> exact reads
  all_goals
    cases List.mem_singleton.mp mem
    exact reads

theorem Instruction.reads_of_mem_reads {i : Instruction} {f : Fields} (spells : f.Spells i) {p : Part}
    (read : p ∈ i.reads) : f.Reads p := by
  cases i
  case skip condition =>
    cases condition <;> simp [reads] at read
    all_goals simp_all [Fields.Spells, Fields.Reads]
  all_goals simp [reads] at read
  all_goals simp_all [Fields.Spells, Fields.Reads]

namespace Machine

variable {m n m' n' : Machine} {parts : List Part}

theorem SameBut.inner (same : m.SameBut parts n) (inputs : parts ⊆ Part.inputs) (p : Part) (inner : p ∉ Part.inputs) :
    p.Same m n :=
  same p (mt (@inputs p) inner)

theorem SameBut.exists_inputs (same : m.SameBut parts n) (inputs : parts ⊆ Part.inputs) :
    ∃ keys random display delay sound speaker, n = { m with keys, random, display, delay, sound, speaker } := by
  have kept := same.inner inputs
  refine ⟨n.keys, n.random, n.display, n.delay, n.sound, n.speaker, ?_⟩
  ext1
  case memory => exact kept .memory (by decide)
  case v => exact kept .registers (by decide)
  case index => exact kept .index (by decide)
  case pc => exact kept .pc (by decide)
  case sp => exact kept .sp (by decide)
  case stack => exact kept .stack (by decide)
  case edge => exact kept .edge (by decide)
  case word => exact kept .word (by decide)
  case draw => exact kept .draw (by decide)
  all_goals rfl

theorem ret_agnostic (same : m.SameBut parts n) (inputs : parts ⊆ Part.inputs) (run : m.ret = .done m')
    (run' : n.ret = .done n') : n'.sp = m'.sp ∧ n'.pc = m'.pc := by
  obtain ⟨keys, random, display, delay, sound, speaker, rfl⟩ := same.exists_inputs inputs
  generalize hn : { m with keys, random, display, delay, sound, speaker } = n at run'
  cases m.ret_cases with
  | underflow _ ret | noEntry _ _ ret => cases run.symm.trans ret
  | back _ entry ret =>
    cases n.ret_cases with
    | underflow _ ret' | noEntry _ _ ret' => cases run'.symm.trans ret'
    | back _ entry' ret' =>
      subst hn
      cases entry.symm.trans entry'
      cases run.symm.trans ret
      cases run'.symm.trans ret'
      exact ⟨rfl, rfl⟩

theorem call_agnostic (same : m.SameBut parts n) (inputs : parts ⊆ Part.inputs) {target : Fin 4096}
    (run : m.call target = .done m') (run' : n.call target = .done n') :
    n'.stack = m'.stack ∧ n'.sp = m'.sp ∧ n'.pc = m'.pc := by
  obtain ⟨keys, random, display, delay, sound, speaker, rfl⟩ := same.exists_inputs inputs
  generalize hn : { m with keys, random, display, delay, sound, speaker } = n at run'
  cases m.call_cases target with
  | overflow _ call | noEntry _ _ call => cases run.symm.trans call
  | push _ entry call =>
    cases n.call_cases target with
    | overflow _ call' | noEntry _ _ call' => cases run'.symm.trans call'
    | push _ entry' call' =>
      subst hn
      cases entry.symm.trans entry'
      cases run.symm.trans call
      cases run'.symm.trans call'
      exact ⟨rfl, rfl, rfl⟩

theorem drawSprite_agnostic (same : m.SameBut parts n) (inputs : parts ⊆ Part.inputs) (unread : .pixels ∉ parts)
    {x y : Register} {height : Fin 16} (run : m.drawSprite x y height = .done m')
    (run' : n.drawSprite x y height = .done n') : n'.v = m'.v ∧ n'.display = m'.display ∧ n'.draw = m'.draw := by
  have pixels : n.display = m.display := same .pixels unread
  obtain ⟨keys, random, display, delay, sound, speaker, rfl⟩ := same.exists_inputs inputs
  cases pixels
  generalize hn : { m with keys, random, delay, sound, speaker } = n at run'
  cases m.draw_cases x y height with
  | fault _ draw | refused _ _ _ draw => cases run.symm.trans draw
  | drawn _ read drew draw =>
    cases n.draw_cases x y height with
    | fault _ draw' | refused _ _ _ draw' => cases run'.symm.trans draw'
    | drawn _ read' drew' draw' =>
      subst hn
      cases read.symm.trans read'
      cases drew.symm.trans drew'
      cases run.symm.trans draw
      cases run'.symm.trans draw'
      exact ⟨rfl, rfl, rfl⟩

theorem writeMemory_agnostic (same : m.SameBut parts n) (inputs : parts ⊆ Part.inputs) {bytes : List UInt8}
    (run : m.writeMemory bytes = .done m') (run' : n.writeMemory bytes = .done n') : n'.memory = m'.memory := by
  obtain ⟨keys, random, display, delay, sound, speaker, rfl⟩ := same.exists_inputs inputs
  generalize hn : { m with keys, random, display, delay, sound, speaker } = n at run'
  cases m.write_cases bytes with
  | fault _ write => cases run.symm.trans write
  | written _ write =>
    cases n.write_cases bytes with
    | fault _ write' => cases run'.symm.trans write'
    | written _ write' =>
      subst hn
      cases run.symm.trans write
      cases run'.symm.trans write'
      rfl

theorem loadRegisters_agnostic (same : m.SameBut parts n) (inputs : parts ⊆ Part.inputs) {x : Register}
    (run : m.loadRegisters x = .done m') (run' : n.loadRegisters x = .done n') : n'.v = m'.v := by
  obtain ⟨keys, random, display, delay, sound, speaker, rfl⟩ := same.exists_inputs inputs
  generalize hn : { m with keys, random, display, delay, sound, speaker } = n at run'
  cases m.load_cases x with
  | fault _ load => cases run.symm.trans load
  | loaded _ read load =>
    cases n.load_cases x with
    | fault _ load' => cases run'.symm.trans load'
    | loaded _ read' load' =>
      subst hn
      cases read.symm.trans read'
      cases run.symm.trans load
      cases run'.symm.trans load'
      rfl

theorem combine_agnostic (v : n.v = m.v) (op : Operation) (x y : Register) :
    (n.combine op x y).v = (m.combine op x y).v := by
  cases carry : op.carry? m.v[x] m.v[y] <;> simp only [combine, v, carry, setV]

theorem condition_agnostic {condition : Condition} (same : m.SameBut parts n) (v : n.v = m.v)
    (unread : ∀ p ∈ (Instruction.skip condition).reads, p ∉ parts) : condition.holds n = condition.holds m := by
  cases condition
  case keyDown | keyUp =>
    have keys : n.keys = m.keys := same .keys (unread _ (by simp [Instruction.reads]))
    simp only [Condition.holds, namedKey, v, keys]
  all_goals simp only [Condition.holds, v]

theorem writes_agnostic {i : Instruction} (same : m.SameBut parts n) (inputs : parts ⊆ Part.inputs)
    (unread : ∀ p ∈ i.reads, p ∉ parts) (run : i.run m = .done m') (run' : i.run n = .done n') :
    ∀ p ∈ i.writes, p ∉ parts → p.Same m' n' := by
  intro p written other
  have v : n.v = m.v := same.inner inputs .registers (by decide)
  cases i
  case ret =>
    obtain ⟨sp, pc⟩ := ret_agnostic same inputs run run'
    simp [Instruction.writes] at written
    rcases written with rfl | rfl <;> assumption
  case call =>
    obtain ⟨stack, sp, pc⟩ := call_agnostic same inputs run run'
    simp [Instruction.writes] at written
    rcases written with rfl | rfl | rfl <;> assumption
  case draw =>
    obtain ⟨v, display, draw⟩ := drawSprite_agnostic same inputs (unread _ (by simp [Instruction.reads])) run run'
    simp [Instruction.writes] at written
    rcases written with rfl | rfl | rfl <;> assumption
  case storeDecimal | store =>
    simp [Instruction.writes] at written
    subst written
    simp only [Instruction.run, v] at run run'
    exact writeMemory_agnostic same inputs run run'
  case load =>
    simp [Instruction.writes] at written
    subst written
    exact loadRegisters_agnostic same inputs run run'
  case awaitKey x =>
    have keys : n.keys = m.keys := same .keys (unread _ (by simp [Instruction.reads]))
    have lowest : n.lowestKey? = m.lowestKey? := by simp only [lowestKey?, keys]
    have pc : n.pc = m.pc := same.inner inputs .pc (by decide)
    simp only [Instruction.run, lowest] at run run'
    cases down : m.lowestKey? <;> simp only [down] at run run'
    all_goals
      cases run
      cases run'
      cases p <;> simp_all [Instruction.writes, Part.Same, setV]
  case skip condition =>
    have pc : n.pc = m.pc := same.inner inputs .pc (by decide)
    have holds := condition_agnostic same v unread
    simp [Instruction.writes] at written
    subst written
    simp only [Instruction.run, holds] at run run'
    cases run
    cases run'
    split
    · exact congrArg (· + 2) pc
    · exact pc
  case clear =>
    cases run
    cases run'
    have := same p other
    cases p <;> simp_all [Instruction.writes, Part.Same]
  case combine op x y =>
    cases run
    cases run'
    simp [Instruction.writes] at written
    subst written
    exact combine_agnostic v op x y
  case random =>
    have source : n.random = m.random := same .random (unread _ (by simp [Instruction.reads]))
    cases run
    cases run'
    cases p <;> simp_all [Instruction.writes, Part.Same, setV]
  case readDelay =>
    have delay : n.delay = m.delay := same .delay (unread _ (by simp [Instruction.reads]))
    cases run
    cases run'
    cases p <;> simp_all [Instruction.writes, Part.Same, setV]
  case addIndex =>
    have index : n.index = m.index := same.inner inputs .index (by decide)
    cases run
    cases run'
    cases p <;> simp_all [Instruction.writes, Part.Same, setV, addIndex]
  all_goals
    cases run
    cases run'
    cases p <;> simp_all [Instruction.writes, Part.Same, setV]

theorem run_agnostic {i : Instruction} (same : m.SameBut parts n) (inputs : parts ⊆ Part.inputs)
    (unread : ∀ p ∈ i.reads, p ∉ parts) (run : i.run m = .done m') (run' : i.run n = .done n') :
    m'.SameBut parts n' := by
  intro p other
  by_cases written : p ∈ i.writes
  case pos => exact writes_agnostic same inputs unread run run' p written other
  case neg =>
    have kept := Instruction.run_frame m i p written
    have kept' := Instruction.run_frame n i p written
    rw [run] at kept
    rw [run'] at kept'
    exact kept.symm.trans ((same p other).trans kept')

theorem SameBut.advance (same : m.SameBut parts n) (word : Int) : (m.advance word).SameBut parts (n.advance word) := by
  intro p other
  have := same p other
  cases p <;> simp_all [Part.Same, Machine.advance]

theorem SameBut.tick (same : m.SameBut parts n) (audible : .sound ∈ parts → .beeps ∈ parts) :
    m.tick.SameBut parts n.tick := by
  intro p other
  have kept := same p other
  cases p
  case beeps =>
    have sound : n.sound = m.sound := same .sound (mt audible other)
    simp_all [Part.Same, Machine.tick, toneEnds]
  all_goals simp_all [Part.Same, Machine.tick]

theorem SameBut.passedOver (same : m.SameBut parts n) (word : Option UInt16) (pc : Int) :
    (m.passedOver word pc).SameBut parts (n.passedOver word pc) := by
  intro p other
  have kept := same p other
  cases p <;> simp_all [Part.Same, Machine.passedOver]

theorem SameBut.make (same : m.SameBut parts n) (inputs : parts ⊆ Part.inputs) (pixels : .pixels ∉ parts) :
    m.SameMake n where
  stackSize := congrArg Array.size (same.inner inputs .stack (by decide))
  width     := congrArg Display.width (same .pixels pixels)
  height    := congrArg Display.height (same .pixels pixels)
  edge      := same.inner inputs .edge (by decide)

theorem Alive.sameBut (alive : m.Alive) (same : m.SameBut parts n) (inputs : parts ⊆ Part.inputs)
    (make : m.SameMake n) : n.Alive where
  range := by
    obtain ⟨keys, random, display, delay, sound, speaker, rfl⟩ := same.exists_inputs inputs
    exact ⟨alive.range.index, alive.range.pc, alive.range.sp, alive.range.stack⟩
  fits := make.fits alive.fits

theorem SameBut.finish (same : m.SameBut parts n) (inputs : parts ⊆ Part.inputs)
    (audible : .sound ∈ parts → .beeps ∈ parts) (word : Option UInt16) (fault : Option Fault)
    (notices notices' : List Notice) : (m.finish word fault notices).SameBut parts (n.finish word fault notices') where
  machine := same.tick audible
  report := by
    have draw : n.draw = m.draw := same.inner inputs .draw (by decide)
    refine ⟨_, _, rfl, rfl, by rw [draw], fun silent => ?_⟩
    have sound : n.sound = m.sound := same .sound silent
    simp only [draw, toneEnds, sound]

theorem Alive.exists_run (alive : m.Alive) (same : m.SameBut parts n) (inputs : parts ⊆ Part.inputs)
    (make : m.SameMake n) {w : UInt16} {i : Instruction} (run : i.run (m.advance w.toNat) = .done m') :
    ∃ n', i.run (n.advance w.toNat) = .done n' := by
  have advanced := same.advance w.toNat
  have kept := advanced.inner inputs
  have alive' := alive.sameBut same inputs make
  cases run' : i.run (n.advance w.toNat) with
  | done n' => exact ⟨n', rfl⟩
  | crash => exact (Instruction.not_run_crash run' alive'.range.sp.left alive'.range.sp.right alive'.fits).elim
  | fault =>
    have fault := Instruction.fault?_of_run run'
    rw [i.fault?_congr (kept .pc (by decide)) (kept .index (by decide)) (kept .sp (by decide)) make.stackSize]
      at fault
    cases run.symm.trans (Instruction.run_of_fault fault)

theorem Alive.step_agnostic (alive : m.Alive) (same : m.SameBut parts n) (inputs : parts ⊆ Part.inputs)
    (make : m.SameMake n) (audible : .sound ∈ parts → .beeps ∈ parts)
    (unread : ∀ w, m.executed? = some w → ∀ p ∈ parts, ¬(Word.fields w.toNat).Reads p) :
    m.step.SameBut parts n.step := by
  have memory : n.memory = m.memory := same.inner inputs .memory (by decide)
  have pc : n.pc = m.pc := same.inner inputs .pc (by decide)
  have course := m.course
  generalize step : m.step = t at course ⊢
  cases course with
  | stuck stuck =>
    have inner : ∀ p ∈ decisiveParts, p ∉ Part.inputs := by decide
    rw [(stuck.sameBut same fun p decisive => mt (@inputs p) (inner p decisive)).step, pc]
    exact (same.passedOver _ _).finish inputs audible _ _ _ _
  | @unknown w fetch decode =>
    have fetch' : Word.fetch n.memory.bytes n.pc = .ok w := by rw [memory, pc, fetch]
    rw [step_of_fault fetch' (execute_of_no_instruction decode), pc]
    exact (same.advance w.toNat).finish inputs audible _ _ _ _
  | crash _ _ run => exact (Instruction.not_run_crash run alive.range.sp.left alive.range.sp.right alive.fits).elim
  | @done w i m' fetch decode run =>
    have fetch' : Word.fetch n.memory.bytes n.pc = .ok w := by rw [memory, pc, fetch]
    have ⟨n', run'⟩ := alive.exists_run same inputs make run
    have executed : m.executed? = some w :=
      executed?_eq_some_iff.mpr ⟨fetch, _, congrArg Turn.result step, rfl⟩
    have spells := Instruction.spells_of_ofFields? decode
    have apart : ∀ p ∈ i.reads, p ∉ parts := fun p read mem =>
      unread w executed p mem (Instruction.reads_of_mem_reads spells read)
    rw [step_of_done fetch' ((execute_of_instruction decode).trans run')]
    exact (run_agnostic (same.advance w.toNat) inputs apart run run').finish inputs audible _ _ _ _

def cycles (m : Machine) (k : Nat) : Machine :=
  m.after (List.replicate k .step)

theorem cycles_succ (m : Machine) (k : Nat) : m.cycles (k + 1) = (m.cycles k).step.machine := by
  rw [cycles, after, List.replicate_succ', List.foldl_append]
  rfl

theorem Alive.cycles_agnostic (alive : m.Alive) (same : m.SameBut parts n) (inputs : parts ⊆ Part.inputs)
    (make : m.SameMake n) (audible : .sound ∈ parts → .beeps ∈ parts) {k : Nat}
    (unread : ∀ j < k, ∀ w, (m.cycles j).executed? = some w → ∀ p ∈ parts, ¬(Word.fields w.toNat).Reads p) :
    (∀ j < k, (m.cycles j).step.SameBut parts (n.cycles j).step) ∧ (m.cycles k).SameBut parts (n.cycles k) := by
  induction k generalizing m n with
  | zero => exact ⟨fun j less => absurd less (Nat.not_lt_zero j), same⟩
  | succ k ih =>
    have first := alive.step_agnostic same inputs make audible (unread 0 (Nat.succ_pos k))
    have make' : m.step.machine.SameMake n.step.machine :=
      m.step_preserves_make.symm.trans (make.trans n.step_preserves_make)
    have ⟨later, left⟩ := ih (alive.serve .step) first.machine make'
      fun j less => unread (j + 1) (Nat.succ_lt_succ less)
    refine ⟨fun j less => ?_, left⟩
    cases j with
    | zero => exact first
    | succ j => exact later j (Nat.lt_of_succ_lt_succ less)

-- Two machines that differ in a single input go through the same cycles, and differ in nothing else afterwards,
-- for as long as no word is carried out that reads this input. No word reads the sound timer, which only makes
-- tones and beeps differ.
theorem cycles_differ_in_input_alone {input : Part} (kind : input ∈ [.keys, .random, .pixels, .delay, .sound])
    (alive : m.Alive) (same : m.SameBut [input] n) (size : input = .pixels → m.SameMake n) {k : Nat}
    (unread : ∀ j < k, ∀ w, (m.cycles j).executed? = some w → ¬(Word.fields w.toNat).Reads input) :
    (∀ j < k, (m.cycles j).step.SameBut input.reach (n.cycles j).step) ∧
      ∀ j ≤ k, (m.cycles j).SameBut input.reach (n.cycles j) := by
  have inputs : input ∈ Part.inputs := List.mem_append_left [Part.beeps] kind
  have make : m.SameMake n := by
    by_cases pixels : input = .pixels
    · exact size pixels
    · exact same.make (fun p mem => List.mem_singleton.mp mem ▸ inputs) (mt List.mem_singleton.mp (Ne.symm pixels))
  have start : m.SameBut input.reach n := same.mono fun p mem => List.mem_singleton.mp mem ▸ input.mem_reach_self
  -- Beeps are taken in among the parts that may differ, for the sake of the sound timer.
  have within (j : Nat) (le : j ≤ k) :=
    alive.cycles_agnostic start (Part.reach_subset_inputs inputs) make Part.beeps_mem_reach
      fun i less w executed p mem reads =>
        unread i (Nat.lt_of_lt_of_le less le) w executed (Fields.reads_of_mem_reach mem reads)
  exact ⟨(within k (Nat.le_refl k)).left, fun j le => (within j le).right⟩

def litDisplay : Display where
  width := 64
  height := 32
  pixels := Array.replicate 2048 true
  size_eq := by simp

theorem pixels_go_unnoticed :
    let m := holding [0x60, 0x05, 0x70, 0x01, 0xF0, 0x15, 0xD0, 0x01]
    let n := { m with display := litDisplay }
    n.display.get 0 0 ≠ m.display.get 0 0 ∧
      (m.cycles 3).v[0]? = some 6 ∧ (m.cycles 3).SameBut [.pixels] (n.cycles 3) := by
  intro m n
  have same : m.SameBut [.pixels] n := by
    intro p other
    cases p
    case pixels => exact absurd List.mem_cons_self other
    all_goals rfl
  have size : m.SameMake n := ⟨rfl, rfl, rfl, rfl⟩
  obtain ⟨first, second, third, added⟩ :
      (m.cycles 0).executed? = some 0x6005 ∧ (m.cycles 1).executed? = some 0x7001 ∧
      (m.cycles 2).executed? = some 0xF015 ∧ (m.cycles 3).v[0]? = some 6 := by
    decide +kernel
  have unread : ∀ j < 3, ∀ w, (m.cycles j).executed? = some w → ¬(Word.fields w.toNat).Reads .pixels := by
    intro j less w executed
    obtain rfl | rfl | rfl : j = 0 ∨ j = 1 ∨ j = 2 := by omega
    · cases first.symm.trans executed
      decide
    · cases second.symm.trans executed
      decide
    · cases third.symm.trans executed
      decide
  obtain ⟨_, left⟩ := cycles_differ_in_input_alone (by simp) (holding_alive _) same (fun _ => size) unread
  exact ⟨by decide +kernel, added, left 3 (by decide)⟩

end Machine
end Chip8
