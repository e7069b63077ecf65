import Mathlib.Data.List.Chain
import Chip8.Proofs.Range
import Chip8.Proofs.Effects

namespace Chip8

namespace Timer

def loaded? (t : Timer) (m : Machine) : Option UInt8 :=
  match m.executed? with
  | some w => if (Word.fields w.toNat).Is 0xF t.loadByte then some (m.v.get (Word.fields w.toNat).x) else none
  | none   => none

def beforeTick (t : Timer) (m : Machine) : UInt8 :=
  (t.loaded? m).getD (t.value m)

end Timer

namespace Machine

def rings (m : Machine) : Bool :=
  match m.step.result with
  | .ok c    => c.tone
  | .error _ => false

def startsTone (m : Machine) : Bool :=
  (Timer.sound.loaded? m).any (· ≠ 0)

variable {m m' : Machine}

theorem loaded?_of_executed {w : UInt16} (executed : m.executed? = some w) (t : Timer) :
    t.loaded? m =
      if (Word.fields w.toNat).Is 0xF t.loadByte then some (m.v.get (Word.fields w.toNat).x) else none := by
  simp only [Timer.loaded?, executed]

theorem loaded?_of_not_executed (executed : m.executed? = none) (t : Timer) : t.loaded? m = none := by
  simp only [Timer.loaded?, executed]

theorem Alive.exists_tick (alive : m.Alive) :
    ∃ m', m.step.machine = m'.tick ∧ m'.speaker = m.speaker ∧ (∀ t : Timer, t.value m' = t.beforeTick m) ∧
      ∃ c, m.step.result = .ok c ∧ c.tone = m'.toneEnds := by
  cases executed : m.executed? with
  | some w =>
    obtain ⟨i, m', fetch, decode, run, step⟩ := exists_run_of_executed executed
    refine ⟨m', congrArg Turn.machine step, ?_, fun t => ?_, _, congrArg Turn.result step, rfl⟩
    · exact Instruction.run_preserves_unwritten run (by decide : Part.beeps ∈ Instruction.unwritten)
    · have spells := Instruction.spells_of_ofFields? decode
      rw [Timer.beforeTick, loaded?_of_executed executed, Instruction.timer_after run spells t]
      split
      · rfl
      · cases t <;> rfl
  | none =>
    simp only [Timer.beforeTick, loaded?_of_not_executed executed]
    simp only [executed?] at executed
    have course := m.course
    generalize m.step = turn at course executed ⊢
    cases course with
    | @stuck word f stuck => exact ⟨m.passedOver word m.pc, rfl, rfl, fun t => by cases t <;> rfl, _, rfl, rfl⟩
    | @unknown w fetch decode =>
      exact ⟨m.advance w.toNat, rfl, rfl, fun t => by cases t <;> rfl, _, rfl, rfl⟩
    | crash _ _ run => exact (Instruction.not_run_crash run alive.range.sp.left alive.range.sp.right alive.fits).elim
    | done => cases executed

theorem Alive.timer_after_step (alive : m.Alive) (t : Timer) :
    (t.value m.step.machine).toNat = (t.beforeTick m).toNat - 1 := by
  have ⟨m', left, _, value, _⟩ := alive.exists_tick
  rw [left, ← value t]
  cases t with
  | delay => exact toNat_tickDown m'.delay
  | sound => exact toNat_tickDown m'.sound

theorem Alive.rings_eq (alive : m.Alive) : m.rings = (Timer.sound.beforeTick m == 1) := by
  have ⟨m', _, _, value, c, result, tone⟩ := alive.exists_tick
  simp only [rings, result, tone, toneEnds, ← value .sound, Timer.value]

theorem Alive.speaker_after_step (alive : m.Alive) :
    m.step.machine.speaker = if m.rings then m.speaker.map (· + 1) else m.speaker := by
  have ⟨m', left, speaker, _, c, result, tone⟩ := alive.exists_tick
  simp only [rings, result, tone, left, tick, speaker]

-- The timers of `m'` are as the cycle of `m` leaves them.
def Precedes (m m' : Machine) : Prop :=
  ∀ t : Timer, (t.value m').toNat = (t.beforeTick m).toNat - 1

section

variable {requests : List Request}

theorem starts_of_onKeys {r : Request} (onKeys : r.onKeys) (rest : List Request) :
    m.starts (r :: rest) = (m.serve r).starts rest :=
  starts_of_ne_step (by rintro rfl; cases onKeys) rest

theorem Alive.starts_chain (alive : m.Alive) (kinds : ∀ r ∈ requests, r = .step ∨ r.onKeys) :
    (m.starts requests).IsChain Precedes ∧
      ∀ s ∈ (m.starts requests).head?, ∀ t : Timer, t.value s = t.value m := by
  -- How the rest of the run begins is carried along, to join its first cycle to the one before.
  induction requests generalizing m with
  | nil => exact ⟨.nil, fun s mem => by cases mem⟩
  | cons r rest ih =>
    have ⟨chain, head⟩ := ih (alive.serve r) fun r' mem => kinds r' (List.mem_cons_of_mem r mem)
    rcases kinds r List.mem_cons_self with rfl | onKeys
    case inl =>
      refine ⟨List.isChain_cons.mpr ⟨fun s mem t => ?_, chain⟩, fun s mem t => ?_⟩
      · rw [head s mem t]
        exact alive.timer_after_step t
      · cases mem
        rfl
    case inr =>
      have ⟨keys, served⟩ := m.serve_on_keys onKeys
      have same (t : Timer) : t.value (m.serve r) = t.value m := by
        rw [served]
        cases t <;> rfl
      rw [starts_of_onKeys onKeys]
      exact ⟨chain, fun s mem t => (head s mem t).trans (same t)⟩

end

section

variable {s s' : Machine} {between next : List Machine} {t : Timer}

theorem beforeTick_of_quiet (quiet : t.loaded? m = none) : t.beforeTick m = t.value m := by
  simp only [Timer.beforeTick, quiet, Option.getD_none]

theorem value_of_chain (chain : (s :: between ++ [s']).IsChain Precedes)
    (quiet : ∀ b ∈ between, t.loaded? b = none) :
    (t.value s').toNat = (t.beforeTick s).toNat - (between.length + 1) := by
  induction between generalizing s with
  | nil =>
    have ⟨next, _⟩ := List.isChain_cons_cons.mp chain
    exact next t
  | cons b rest ih =>
    have ⟨next, further⟩ := List.isChain_cons_cons.mp chain
    have lost := ih further fun b' mem => quiet b' (List.mem_cons_of_mem b mem)
    rw [beforeTick_of_quiet (quiet b List.mem_cons_self), next t] at lost
    rw [lost, List.length_cons]
    omega

theorem rings_of_chain (alive : ∀ b ∈ s :: next, b.Alive) (chain : (s :: next).IsChain Precedes)
    (quiet : ∀ b ∈ next, Timer.sound.loaded? b = none)
    (loaded : (Timer.sound.beforeTick s).toNat = next.length + 1) :
    (s :: next).map rings = List.replicate next.length false ++ [true] := by
  induction next generalizing s with
  | nil =>
    have one : Timer.sound.beforeTick s = 1 := UInt8.toNat_inj.mp loaded
    simp [(alive s List.mem_cons_self).rings_eq, one]
  | cons b rest ih =>
    have ⟨follows, further⟩ := List.isChain_cons_cons.mp chain
    have silent : s.rings = false := by
      rw [(alive s List.mem_cons_self).rings_eq]
      refine beq_eq_false_iff_ne.mpr fun one => ?_
      rw [one] at loaded
      simp at loaded
    have left : (Timer.sound.beforeTick b).toNat = rest.length + 1 := by
      rw [beforeTick_of_quiet (quiet b List.mem_cons_self), follows .sound, loaded]
      rfl
    have tones := ih (fun b' mem => alive b' (List.mem_cons_of_mem s mem)) further
      (fun b' mem => quiet b' (List.mem_cons_of_mem b mem)) left
    rw [List.map_cons, silent, tones]
    rfl

-- A cycle that rings uses up a load: its own, or the one that the sound timer still held.
theorem rings_add_le (alive : s.Alive) (follows : s.Precedes s') :
    (if s.rings then 1 else 0) + (if s'.sound = 0 then 0 else 1) ≤
      (if s.startsTone then 1 else 0) + if s.sound = 0 then 0 else 1 := by
  -- A value other than zero before the tick either rings or is not used up yet.
  have used : (if s.rings then 1 else 0) + (if s'.sound = 0 then 0 else 1) =
      if Timer.sound.beforeTick s = 0 then 0 else 1 := by
    have left : s'.sound.toNat = (Timer.sound.beforeTick s).toNat - 1 := follows .sound
    simp only [alive.rings_eq, beq_iff_eq, ← UInt8.toNat_inj, left, UInt8.reduceToNat]
    repeat' split
    all_goals omega
  rw [used]
  cases loaded : Timer.sound.loaded? s with
  | none =>
    rw [beforeTick_of_quiet loaded, Timer.value]
    exact Nat.le_add_left _ _
  | some v =>
    have starts : s.startsTone = true ↔ v ≠ 0 := by simp [startsTone, loaded]
    simp only [Timer.beforeTick, loaded, Option.getD_some, starts]
    grind

theorem countP_rings_le (alive : ∀ b ∈ s :: next, b.Alive) (chain : (s :: next).IsChain Precedes) :
    (s :: next).countP rings ≤ (s :: next).countP startsTone + if s.sound = 0 then 0 else 1 := by
  induction next generalizing s with
  | nil =>
    have here := rings_add_le (alive s List.mem_cons_self) (alive s List.mem_cons_self).timer_after_step
    simp only [List.countP_cons, List.countP_nil]
    omega
  | cons b rest ih =>
    have ⟨follows, further⟩ := List.isChain_cons_cons.mp chain
    have later := ih (fun b' mem => alive b' (List.mem_cons_of_mem s mem)) further
    have here := rings_add_le (alive s List.mem_cons_self) follows
    rw [List.countP_cons, List.countP_cons (a := s)]
    omega

theorem readDelay_after_step {w : UInt16} (executed : m.executed? = some w)
    (isRead : (Word.fields w.toNat).Is 0xF 0x07) : m.step.machine.v.get (Word.fields w.toNat).x = m.delay := by
  obtain ⟨i, m', _, decode, run, step⟩ := exists_run_of_executed executed
  have spells := Instruction.spells_of_ofFields? decode
  cases Instruction.eq_of_spells spells (show (Word.fields w.toNat).Spells (.readDelay _) from ⟨isRead, rfl⟩)
  cases run
  rw [step]
  exact Vector.getElem_set_self (Word.fields w.toNat).x.isLt

end

variable {requests : List Request}

theorem Alive.speaker_after (alive : m.Alive) (kinds : ∀ r ∈ requests, r = .step ∨ r.onKeys) {n : Nat}
    (attached : m.speaker = some n) :
    (m.after requests).speaker = some (n + (m.starts requests).countP rings) := by
  induction requests generalizing m n with
  | nil => exact attached
  | cons r rest ih =>
    have kinds' : ∀ r' ∈ rest, r' = .step ∨ r'.onKeys := fun r' mem => kinds r' (List.mem_cons_of_mem r mem)
    rcases kinds r List.mem_cons_self with rfl | onKeys
    case inl =>
      have speaker : m.step.machine.speaker = some (n + if m.rings then 1 else 0) := by
        rw [alive.speaker_after_step, attached]
        split <;> rfl
      have later := ih (alive.serve .step) kinds' speaker
      rw [Machine.starts, List.countP_cons, Nat.add_comm (List.countP _ _), ← Nat.add_assoc]
      exact later
    case inr =>
      have ⟨keys, served⟩ := m.serve_on_keys onKeys
      have speaker : (m.serve r).speaker = some n := by
        rw [served]
        exact attached
      rw [starts_of_onKeys onKeys]
      exact ih (alive.serve r) kinds' speaker

-- Along every run of cycles with only keys pressed and released in between, each cycle counts the timers down
-- once, from the value that it has loaded or from the old one, and rings exactly when the sound timer goes from
-- one to zero. So a delay that is read k cycles after it was loaded has lost k, a sound timer rings once, in the
-- last of its cycles, and a run that begins in silence has at most one tone for each load of the sound timer.
theorem timers_along_runs (alive : m.Alive) (kinds : ∀ r ∈ requests, r = .step ∨ r.onKeys) :
    (∀ s ∈ m.starts requests, ∃ c, s.step.result = .ok c ∧
      (∀ t : Timer, (t.value s.step.machine).toNat = (t.beforeTick s).toNat - 1) ∧
      (c.tone = true ↔ Timer.sound.beforeTick s = 1) ∧
      s.step.machine.speaker = if c.tone then s.speaker.map (· + 1) else s.speaker) ∧
    (∀ past s between s' later v w, m.starts requests = past ++ (s :: between ++ s' :: later) →
      Timer.delay.loaded? s = some v → (∀ b ∈ between, Timer.delay.loaded? b = none) →
      s'.executed? = some w → (Word.fields w.toNat).Is 0xF 0x07 →
      (s'.step.machine.v.get (Word.fields w.toNat).x).toNat = v.toNat - (between.length + 1)) ∧
    (∀ past s next later v, m.starts requests = past ++ (s :: next ++ later) →
      Timer.sound.loaded? s = some v → next.length + 1 = v.toNat → (∀ b ∈ next, Timer.sound.loaded? b = none) →
      (s :: next).map rings = List.replicate next.length false ++ [true]) ∧
    (∀ n, m.speaker = some n → (m.after requests).speaker = some (n + (m.starts requests).countP rings)) ∧
    (m.sound = 0 → (m.starts requests).countP rings ≤ (m.starts requests).countP startsTone) := by
  have ⟨chain, head⟩ := alive.starts_chain kinds
  have living : ∀ s ∈ m.starts requests, s.Alive := alive.starts
  refine ⟨fun s mem => ?cycle, fun past s between s' later v w split loaded quiet executed isRead => ?read,
    fun past s next later v split loaded length quiet => ?ring, fun n => alive.speaker_after kinds, fun silent => ?count⟩
  case cycle =>
    have ⟨c, result⟩ := (living s mem).exists_cycle
    have tone : s.rings = c.tone := by simp only [rings, result]
    refine ⟨c, result, (living s mem).timer_after_step, ?_, ?_⟩
    · rw [← tone, (living s mem).rings_eq, beq_iff_eq]
    · rw [← tone]
      exact (living s mem).speaker_after_step
  case read =>
    have part : (s :: between ++ [s']) <:+: m.starts requests := ⟨past, later, by simp [split]⟩
    have run := List.IsChain.infix chain part
    have lost := value_of_chain run quiet
    rw [Timer.beforeTick, loaded] at lost
    rw [readDelay_after_step executed isRead]
    exact lost
  case ring =>
    have part : (s :: next) <:+: m.starts requests := ⟨past, later, by simp [split]⟩
    have run := List.IsChain.infix chain part
    refine rings_of_chain (fun b mem => living b (part.subset mem)) run quiet ?_
    rw [Timer.beforeTick, loaded, length]
    rfl
  case count =>
    cases begins : m.starts requests with
    | nil => exact Nat.zero_le _
    | cons s rest =>
      rw [begins] at chain head living
      have still : s.sound = 0 := (head s rfl .sound).trans silent
      have le := countP_rings_le living chain
      rw [if_pos still] at le
      exact le

def timed : Machine :=
  holding [0x60, 0x03, 0xF0, 0x15, 0xF0, 0x18, 0xF1, 0x07]

def timedRun : List Request :=
  [.step, .step, .press 5, .step, .step, .step]

theorem delay_is_read_and_tone_rings :
    let s₁ := timed.step.machine
    let s₂ := s₁.step.machine.serve (.press 5)
    let s₃ := s₂.step.machine
    timed.Alive ∧ timed.starts timedRun = [timed, s₁, s₂, s₃, s₃.step.machine] ∧
      (s₃.step.machine.v.get (Word.fields 0xF107).x).toNat = 3 - 2 ∧
      [s₂, s₃, s₃.step.machine].map rings = [false, false, true] := by
  intro s₁ s₂ s₃
  have alive : timed.Alive := holding_alive _
  have kinds : ∀ r ∈ timedRun, r = .step ∨ r.onKeys := by simp [timedRun, Request.onKeys]
  have starts : timed.starts timedRun = [timed, s₁, s₂, s₃, s₃.step.machine] := rfl
  obtain ⟨_, read, ring, _⟩ := timers_along_runs alive kinds
  obtain ⟨delay, kept, reads, sound, kept₃, kept₄⟩ :
      Timer.delay.loaded? s₁ = some 3 ∧ Timer.delay.loaded? s₂ = none ∧ s₃.executed? = some 0xF107 ∧
        Timer.sound.loaded? s₂ = some 3 ∧ Timer.sound.loaded? s₃ = none ∧
        Timer.sound.loaded? s₃.step.machine = none := by
    decide +kernel
  refine ⟨alive, starts, ?_, ?_⟩
  · exact read [timed] s₁ [s₂] s₃ [s₃.step.machine] 3 0xF107 starts delay (by simpa using kept) reads (by decide)
  · exact ring [timed, s₁] s₂ [s₃, s₃.step.machine] [] 3 starts sound rfl (by simp [kept₃, kept₄])

end Machine
end Chip8
