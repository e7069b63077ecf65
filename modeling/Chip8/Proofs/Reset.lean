import Chip8.Proofs.Range
import Chip8.Proofs.Words

namespace Chip8

namespace Memory

variable {m : Memory}

-- The memory before the programs is as it was when the machine was switched on: the font, and zeros after it.
def HasFont (m : Memory) : Prop :=
  ∀ (i : Nat) (h : i < size), i < programStart → m.bytes[i] = Font.bytes.getD i 0

theorem getElem_initial (i : Nat) (h : i < size) : initial.bytes[i] = Font.bytes.getD i 0 := by
  simp only [initial, Vector.getElem_mk, List.getElem_toArray]
  rw [List.getElem_append]
  split
  case isTrue inFont => simp [inFont]
  case isFalse past => simp [List.getElem?_eq_none (Nat.le_of_not_lt past)]

theorem initial_hasFont : initial.HasFont :=
  fun i h _ => getElem_initial i h

theorem HasFont.overwrite (h : m.HasFont) {start : Nat} (high : programStart ≤ start) (block : List UInt8) :
    (m.overwrite start block).HasFont := by
  intro i inside low
  rw [getElem_overwrite, if_neg (by omega)]
  exact h i inside low

theorem clearPrograms_eq_initial_iff : m.clearPrograms = initial ↔ m.HasFont := by
  constructor
  case mp =>
    intro same i h low
    rw [← getElem_initial i h, ← same, getElem_clearPrograms, if_pos low]
  case mpr =>
    intro font
    refine Memory.ext (Vector.ext fun i h => ?_)
    rw [getElem_clearPrograms, getElem_initial i h]
    split
    case isTrue low => exact font i h low
    case isFalse high =>
      have past : Font.bytes.length ≤ i := Nat.le_trans (by decide) (Nat.le_of_not_lt high)
      rw [List.getD_eq_getElem?_getD, List.getElem?_eq_none past]
      rfl

theorem HasFont.clearPrograms (h : m.HasFont) : m.clearPrograms.HasFont :=
  clearPrograms_eq_initial_iff.mpr h ▸ initial_hasFont

end Memory

def Word.IsStore (w : UInt16) : Prop :=
  w.toNat / 0x1000 = 0xF ∧ (w.toNat % 0x100 = 0x33 ∨ w.toNat % 0x100 = 0x55)

instance (w : UInt16) : Decidable (Word.IsStore w) :=
  inferInstanceAs (Decidable (_ ∧ _))

namespace Instruction

theorem isStore_of_writes {w : UInt16} {i : Instruction} (decode : ofWord? w.toNat = some i)
    (writes : Part.memory ∈ i.writes) : Word.IsStore w := by
  have spells := spells_of_ofFields? decode
  rw [Word.IsStore, ← Word.val_family, ← Word.toNat_nn]
  cases i <;> simp [Instruction.writes] at writes
  case storeDecimal =>
    obtain ⟨⟨family, nn⟩, _⟩ := spells
    exact ⟨family, .inl (congrArg UInt8.toNat nn)⟩
  case store =>
    obtain ⟨⟨family, nn⟩, _⟩ := spells
    exact ⟨family, .inr (congrArg UInt8.toNat nn)⟩

end Instruction

namespace Machine

variable {m : Machine}

theorem writeMemory_keeps_font (font : m.memory.HasFont) (high : 0x200 ≤ m.index) (bytes : List UInt8) :
    (m.writeMemory bytes).machine.memory.HasFont := by
  cases m.write_cases bytes with
  | fault _ write =>
    rw [write]
    exact font
  | written _ write =>
    have start : Memory.programStart ≤ m.index.toNat := by
      show 0x200 ≤ m.index.toNat
      omega
    rw [write]
    exact font.overwrite start bytes

theorem run_keeps_font {i : Instruction} (font : m.memory.HasFont)
    (high : Part.memory ∈ i.writes → 0x200 ≤ m.index) : (i.run m).machine.memory.HasFont := by
  by_cases writes : Part.memory ∈ i.writes
  case neg =>
    have same : (i.run m).machine.memory = m.memory := Instruction.run_frame m i _ writes
    exact same ▸ font
  case pos =>
    cases i <;> simp [Instruction.writes] at writes
    case storeDecimal | store => exact writeMemory_keeps_font font (high (by simp [Instruction.writes])) _

def StoresLow (m : Machine) : Prop :=
  m.index < 0x200 ∧ ∃ w, Word.fetch m.memory.bytes m.pc = .ok w ∧ Word.IsStore w

instance (m : Machine) : Decidable m.StoresLow :=
  match h : Word.fetch m.memory.bytes m.pc with
  | .ok w    => decidable_of_iff (m.index < 0x200 ∧ Word.IsStore w) (by simp [StoresLow, h])
  | .error _ => .isFalse (by simp [StoresLow, h])

theorem step_keeps_font (font : m.memory.HasFont) (high : ¬m.StoresLow) : m.step.machine.memory.HasFont := by
  have runs {w : UInt16} {i : Instruction} {e : Execution} (fetch : Word.fetch m.memory.bytes m.pc = .ok w)
      (decode : Instruction.ofWord? w.toNat = some i) (run : i.run (m.advance w.toNat) = e) :
      e.machine.memory.HasFont := by
    rw [← run]
    refine run_keeps_font (m := m.advance w.toNat) font fun writes => ?_
    exact Int.not_lt.mp fun low => high ⟨low, w, fetch, Instruction.isStore_of_writes decode writes⟩
  have course := m.course
  generalize m.step = t at course ⊢
  cases course with
  | stuck | unknown => exact font
  | crash fetch decode run => exact runs fetch decode run
  | done fetch decode run => exact runs fetch decode run

end Machine

def Request.WritesLow (m : Machine) : Request → Prop
  | step            => m.StoresLow
  | write address _ => address < 0x200
  | _               => False

instance (m : Machine) : (r : Request) → Decidable (r.WritesLow m)
  | .step            => inferInstanceAs (Decidable m.StoresLow)
  | .write address _ => inferInstanceAs (Decidable (address < 0x200))
  | .load _ | .loadNumbers _ | .loadRom .. | .reset | .setKeys _ | .press _ | .release _ | .tick | .read _
  | .checkRange ..   => .isFalse id

namespace Machine

variable {m : Machine}

theorem load_keeps_font (font : m.memory.HasFont) (image : List UInt8) :
    (m.orSame ((m.load image).map Prod.fst)).memory.HasFont := by
  simp only [load]
  split
  · exact font.overwrite (Nat.le_refl _) image
  · exact font

theorem write_keeps_font (font : m.memory.HasFont) {address : Int} (high : 0x200 ≤ address) (value : Int) :
    (m.orSame (m.write address value)).memory.HasFont := by
  have start : Memory.programStart ≤ address.toNat := by
    show 0x200 ≤ address.toNat
    omega
  simp only [write, Memory.write]
  split
  case h_1 => exact font
  case h_2 memory written =>
    split at written <;> cases written
    split
    · exact font.overwrite start _
    · exact font

theorem serve_keeps_font (font : m.memory.HasFont) {r : Request} (high : ¬r.WritesLow m) :
    (m.serve r).memory.HasFont := by
  by_cases onKeys : r.onKeys
  case pos =>
    have ⟨keys, served⟩ := m.serve_on_keys onKeys
    rw [served]
    exact font
  cases r with
  | step => exact step_keeps_font font high
  | load image => exact load_keeps_font font image
  | loadNumbers values =>
    simp only [serve, loadNumbers]
    split
    · split
      · exact load_keeps_font font _
      · exact font
    · exact font
  | loadRom path file =>
    simp only [serve, loadRom]
    split
    · exact font
    · split
      case h_5 => exact load_keeps_font font _
      all_goals exact font
  | reset => exact font.clearPrograms
  | write address value => exact write_keeps_font font (Int.not_lt.mp high) value
  | setKeys | press | release => exact absurd rfl onKeys
  | tick | read | checkRange => exact font

def SparesFont (m : Machine) : List Request → Prop
  | []        => True
  | r :: rest => ¬r.WritesLow m ∧ (m.serve r).SparesFont rest

instance decidableSparesFont (m : Machine) : (requests : List Request) → Decidable (m.SparesFont requests)
  | []        => .isTrue trivial
  | r :: rest =>
    have := decidableSparesFont (m.serve r) rest
    inferInstanceAs (Decidable (_ ∧ _))

theorem after_keeps_font (font : m.memory.HasFont) {requests : List Request} (spares : m.SparesFont requests) :
    (m.after requests).memory.HasFont := by
  induction requests generalizing m with
  | nil => exact font
  | cons r rest ih =>
    have ⟨high, later⟩ := spares
    exact ih (serve_keeps_font font high) later

structure Spends (m m' : Machine) : Prop where
  numbers : m'.random.numbers = m.random.numbers
  drawn   : m.random.drawn ≤ m'.random.drawn
  speaker : m'.speaker.isSome = m.speaker.isSome

theorem Spends.refl (m : Machine) : m.Spends m :=
  ⟨rfl, Nat.le_refl _, rfl⟩

theorem Spends.trans {m' m'' : Machine} (h : m.Spends m') (h' : m'.Spends m'') : m.Spends m'' where
  numbers := h'.numbers.trans h.numbers
  drawn   := Nat.le_trans h.drawn h'.drawn
  speaker := h'.speaker.trans h.speaker

theorem run_spends (m : Machine) (i : Instruction) : m.Spends (i.run m).machine := by
  have beeps : (i.run m).machine.speaker = m.speaker :=
    Instruction.run_preserves_unwritten rfl (by decide : Part.beeps ∈ Instruction.unwritten)
  by_cases writes : Part.random ∈ i.writes
  case neg =>
    have random : (i.run m).machine.random = m.random := Instruction.run_frame m i _ writes
    exact ⟨random ▸ rfl, random ▸ Nat.le_refl _, beeps ▸ rfl⟩
  case pos =>
    cases i <;> simp [Instruction.writes] at writes
    case random x mask => exact ⟨rfl, Nat.le_succ _, rfl⟩

theorem tick_spends (m : Machine) : m.Spends m.tick := by
  refine ⟨rfl, Nat.le_refl _, ?_⟩
  simp only [tick]
  split
  · exact Option.isSome_map
  · rfl

theorem advance_spends (m : Machine) (word : Int) : m.Spends (m.advance word) :=
  ⟨rfl, Nat.le_refl _, rfl⟩

theorem step_spends (m : Machine) : m.Spends m.step.machine := by
  have runs {w : UInt16} {i : Instruction} {e : Execution} (run : i.run (m.advance w.toNat) = e) :
      m.Spends e.machine :=
    (m.advance_spends _).trans (run ▸ run_spends _ i)
  have course := m.course
  generalize m.step = t at course ⊢
  cases course with
  | @stuck word _ _ =>
    have passed : m.Spends (m.passedOver word m.pc) := ⟨rfl, Nat.le_refl _, rfl⟩
    exact passed.trans (tick_spends _)
  | @unknown w _ _ => exact (m.advance_spends w.toNat).trans (tick_spends _)
  | crash _ _ run => exact runs run
  | done _ _ run => exact (runs run).trans (tick_spends _)

theorem serve_spends (m : Machine) (r : Request) : m.Spends (m.serve r) := by
  have service := m.service r
  generalize m.serve r = m' at service ⊢
  cases service with
  | step => exact m.step_spends
  | tick => exact m.tick_spends
  | reset | memory | keys => exact ⟨rfl, Nat.le_refl _, rfl⟩

theorem after_spends (m : Machine) (requests : List Request) : m.Spends (m.after requests) :=
  after_preserves (fun m' r _ spent => spent.trans (m'.serve_spends r)) (.refl m)

end Machine

theorem Display.clear_eq_clear {d d' : Display} (width : d'.width = d.width) (height : d'.height = d.height) :
    d'.clear = d.clear := by
  simp only [clear, width, height, pixels_size_eq width height]

namespace Machine

variable {m : Machine}

theorem reset_eq_powerOn {display : Display} {edge : EdgeRule} {stackSize : Nat} {random : RandomSource}
    {speaker : Option Nat} (same : (powerOn display edge stackSize random speaker).SameMake m) :
    m.reset =
      { powerOn display edge stackSize m.random m.speaker with memory := m.memory.clearPrograms } := by
  have stackSize : m.stack.size = stackSize := same.stackSize.trans Array.size_replicate
  have display : m.display.clear = display.clear := Display.clear_eq_clear same.width same.height
  have edge : m.edge = edge := same.edge
  simp only [reset, powerOn, stackSize, display, edge]

-- After any run, a reset puts all of the machine but the memory before the programs in the state in which
-- it was switched on. That memory stays as the run left it. So the machine is as it was switched on if, and
-- only if, the run left the font and the zeros after it alone, as every run does that stores nothing below
-- 0x200. A program that is then loaded runs as on a new machine with the remaining random bytes.
theorem reset_restores_power_on (display : Display) (edge : EdgeRule) (stackSize : Nat) (random : RandomSource)
    (speaker : Option Nat) (requests : List Request) :
    let fresh := powerOn display edge stackSize random speaker
    let m := fresh.after requests
    let anew := powerOn display edge stackSize m.random m.speaker
    m.reset = { anew with memory := m.reset.memory } ∧
      (∀ (i : Nat) (h : i < Memory.size),
        m.reset.memory.bytes[i] = if i < 0x200 then m.memory.bytes[i] else 0) ∧
      fresh.Spends m ∧
      (m.reset = anew ↔ m.memory.HasFont) ∧
      (fresh.SparesFont requests → m.memory.HasFont) ∧
      (m.memory.HasFont → ∀ path rom later,
        (m.reset.after (.loadRom path rom :: later)).step = (anew.after (.loadRom path rom :: later)).step) := by
  intro fresh m anew
  have reset : m.reset = { anew with memory := m.memory.clearPrograms } :=
    reset_eq_powerOn (fresh.after_preserves_make requests)
  have restored : m.reset = anew ↔ m.memory.HasFont := by
    rw [← Memory.clearPrograms_eq_initial_iff]
    constructor
    · intro same
      exact congrArg Machine.memory same
    · intro same
      rw [reset, same]
      rfl
  refine ⟨reset, fun i h => m.memory.getElem_clearPrograms i h, fresh.after_spends requests, restored,
    after_keeps_font Memory.initial_hasFont, fun font path rom later => ?_⟩
  rw [restored.mpr font]

def storeBehindProgram : List Request :=
  [.load [0x60, 0x07, 0xA2, 0x06, 0xF0, 0x55], .step, .step, .step]

theorem store_behind_program_is_undone :
    (powerOn .standard .clip 16 (.cycle #[]) none).SparesFont storeBehindProgram ∧
      let m := (powerOn .standard .clip 16 (.cycle #[]) none).after storeBehindProgram
      m.memory.byteAt 0x206 = 7 ∧ m.reset = powerOn .standard .clip 16 m.random m.speaker := by
  have ⟨spares, stored⟩ :
      (powerOn .standard .clip 16 (.cycle #[]) none).SparesFont storeBehindProgram ∧
      ((powerOn .standard .clip 16 (.cycle #[]) none).after storeBehindProgram).memory.byteAt 0x206 = 7 := by
    decide +kernel
  have ⟨_, _, _, restored, font, _⟩ :=
    reset_restores_power_on .standard .clip 16 (.cycle #[]) none storeBehindProgram
  exact ⟨spares, stored, restored.mpr (font spares)⟩

theorem overwritten_font_survives_reset :
    ((powerOn .standard .clip 16 (.cycle #[]) none).after
        [.load [0xA0, 0x00, 0xF0, 0x55], .step, .step]).reset.memory.byteAt 0 ≠
      (powerOn .standard .clip 16 (.cycle #[]) none).memory.byteAt 0 := by
  decide +kernel

end Machine
end Chip8
