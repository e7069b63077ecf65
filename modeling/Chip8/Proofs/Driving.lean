import Mathlib.Control.Monad.Basic
import Chip8.Proofs.Passes
import Chip8.Proofs.Range

namespace Chip8

theorem Status.halts_iff {s : Status} : s.halts ↔ s = .stackFault ∨ s = .memoryFault := by
  cases s <;> simp [halts]

theorem Event.stops_iff {event : Event} : event.stops ↔ event = .quit ∨ event = .keyDown Keyboard.escape := by
  cases event <;> simp [stops]

theorem Pass.stops_iff {p : Pass} : p.stops ↔ .quit ∈ p.events ∨ .keyDown Keyboard.escape ∈ p.events := by
  simp only [stops, List.any_eq_true, Event.stops_iff]
  constructor
  · rintro ⟨_, mem, rfl | rfl⟩
    · exact .inl mem
    · exact .inr mem
  · rintro (mem | mem)
    · exact ⟨_, mem, .inl rfl⟩
    · exact ⟨_, mem, .inr rfl⟩

def Pass.requests (p : Pass) : List Request :=
  [.setKeys (Keyboard.states p.pressed).toArray, .step]

namespace Machine

variable {m : Machine} {p : Pass}

def driven (m : Machine) (passes : List Pass) : Machine :=
  m.after (passes.flatMap Pass.requests)

def turn (m : Machine) (p : Pass) : Turn :=
  (m.serve (.setKeys (Keyboard.states p.pressed).toArray)).step

def turns (m : Machine) : List Pass → List Turn
  | []        => []
  | p :: rest => m.turn p :: (m.turn p).machine.turns rest

def EndsWith (m : Machine) (p : Pass) : Prop :=
  (.quit ∈ p.events ∨ .keyDown Keyboard.escape ∈ p.events) ∨
    ∃ c, (m.turn p).result = .ok c ∧ (c.status = .stackFault ∨ c.status = .memoryFault)

def GoesThrough (m : Machine) (passes : List Pass) : Prop :=
  ∀ past p rest, passes = past ++ p :: rest → ¬(m.driven past).EndsWith p

theorem turn_eq (m : Machine) (p : Pass) : m.turn p = (m.withKeys (Keyboard.states p.pressed)).step := by
  simp only [turn, serve, setKeys_toArray]
  rfl

theorem driven_cons (m : Machine) (p : Pass) (rest : List Pass) :
    m.driven (p :: rest) = (m.turn p).machine.driven rest := by
  simp only [driven, after, List.flatMap_cons, List.foldl_append, Pass.requests, List.foldl_cons, List.foldl_nil]
  rfl

theorem GoesThrough.head {rest : List Pass} (h : m.GoesThrough (p :: rest)) : ¬m.EndsWith p :=
  h [] p rest rfl

theorem GoesThrough.tail {rest : List Pass} (h : m.GoesThrough (p :: rest)) :
    (m.turn p).machine.GoesThrough rest := by
  rintro past q later rfl
  rw [← driven_cons]
  exact h (p :: past) q later rfl

theorem goesThrough_cons {rest : List Pass} :
    m.GoesThrough (p :: rest) ↔ ¬m.EndsWith p ∧ (m.turn p).machine.GoesThrough rest := by
  refine ⟨fun h => ⟨h.head, h.tail⟩, fun ⟨goesOn, further⟩ past q later split => ?_⟩
  cases past with
  | nil =>
    obtain ⟨rfl, rfl⟩ := List.cons.inj split
    exact goesOn
  | cons p' past =>
    obtain ⟨rfl, rfl⟩ := List.cons.inj split
    rw [driven_cons]
    exact further past q later rfl

instance (m : Machine) (p : Pass) : Decidable (m.EndsWith p) :=
  match h : (m.turn p).result with
  | .ok c    => decidable_of_iff ((.quit ∈ p.events ∨ .keyDown Keyboard.escape ∈ p.events) ∨
      (c.status = .stackFault ∨ c.status = .memoryFault)) (by simp [EndsWith, h])
  | .error _ => decidable_of_iff (.quit ∈ p.events ∨ .keyDown Keyboard.escape ∈ p.events) (by simp [EndsWith, h])

instance decidableGoesThrough (m : Machine) : (passes : List Pass) → Decidable (m.GoesThrough passes)
  | []        => .isTrue fun _ _ _ split => absurd split (by simp)
  | p :: rest =>
    have := decidableGoesThrough (m.turn p).machine rest
    decidable_of_iff _ goesThrough_cons.symm

theorem Alive.turn (h : m.Alive) (p : Pass) : (m.turn p).machine.Alive :=
  (h.serve _).serve .step

theorem Alive.exists_report (h : m.Alive) (p : Pass) : ∃ c, (m.turn p).result = .ok c :=
  (h.serve (.setKeys (Keyboard.states p.pressed).toArray)).exists_cycle

theorem Alive.turns (h : m.Alive) {passes : List Pass} {t : Turn} (mem : t ∈ m.turns passes) :
    ∃ c, t.result = .ok c := by
  induction passes generalizing m with
  | nil => cases mem
  | cons p rest ih =>
    rw [Machine.turns, List.mem_cons] at mem
    rcases mem with first | later
    · rw [first]
      exact h.exists_report p
    · exact ih (h.turn p) later

end Machine

namespace Emulator

variable {e : Emulator} {p : Pass} {c : Cycle}

def actionsAfter (e : Emulator) (t : Turn) : List Action :=
  match t.result with
  | .ok c    => (if c.draw then e.showDisplay t.machine else []) ++ [.tick e.rate]
  | .error _ => []

theorem actionsAfter_machine (e : Emulator) (machine : Machine) :
    { e with machine }.actionsAfter = e.actionsAfter :=
  rfl

theorem actionsAfter_opened (e : Emulator) : { e with window := e.window.opened }.actionsAfter = e.actionsAfter :=
  rfl

def noticesAfter (t : Turn) : List Notice :=
  match t.result with
  | .ok c    => t.notices ++ cycleNotices c
  | .error _ => t.notices

def statusAfter (c : Cycle) : Nat :=
  if c.status = .stackFault ∨ c.status = .memoryFault then 2 else 0

theorem pass_eq (report : (e.machine.turn p).result = .ok c) :
    e.pass p = {
      machine := (e.machine.turn p).machine
      report := (e.machine.turn p).result
      actions := e.actionsAfter (e.machine.turn p)
      notices := noticesAfter (e.machine.turn p)
      ending := endingAfter p c } := by
  simp only [actionsAfter, noticesAfter, report]
  rw [Machine.turn_eq] at report ⊢
  simp only [pass, report]

theorem ending_of_not_endsWith {m : Machine} (report : (m.turn p).result = .ok c) (goesOn : ¬m.EndsWith p) :
    endingAfter p c = none := by
  have ⟨notStopped, notHalted⟩ := not_or.mp goesOn
  have runs : ¬c.status.halts := fun h => notHalted ⟨c, report, Status.halts_iff.mp h⟩
  rw [endingAfter, if_neg runs, if_neg (mt Pass.stops_iff.mp notStopped)]

theorem ending_of_endsWith {m : Machine} (report : (m.turn p).result = .ok c) (ends : m.EndsWith p) :
    endingAfter p c = some (.exit (statusAfter c)) := by
  by_cases halts : c.status.halts
  case pos =>
    rw [endingAfter, if_pos halts, statusAfter, if_pos (Status.halts_iff.mp halts)]
    rfl
  case neg =>
    have runs := mt Status.halts_iff.mpr halts
    have stops : p.stops := by
      rcases ends with stopped | ⟨c', report', halted⟩
      · exact Pass.stops_iff.mpr stopped
      · cases report.symm.trans report'
        exact absurd halted runs
    rw [endingAfter, if_neg halts, if_pos stops, statusAfter, if_neg runs]

theorem loop_of_end (alive : e.machine.Alive) {before : List Pass} {last : Pass}
    (through : e.machine.GoesThrough before) (ends : (e.machine.driven before).EndsWith last)
    (rest : List Pass) :
    ∃ c, ((e.machine.driven before).turn last).result = .ok c ∧
      e.loop (before ++ last :: rest) = {
        actions := (e.machine.turns (before ++ [last])).flatMap e.actionsAfter ++ [.quit]
        notices := (e.machine.turns (before ++ [last])).flatMap noticesAfter
        ending := .exit (statusAfter c) } ∧
      (e.results (before ++ last :: rest)).map (fun r => (r.report, r.machine)) =
        (e.machine.turns (before ++ [last])).map fun t => (t.result, t.machine) := by
  induction before generalizing e with
  | nil =>
    obtain ⟨c, report⟩ := alive.exists_report last
    have ending := ending_of_endsWith report ends
    have pass := pass_eq report
    refine ⟨c, report, ?_, ?_⟩
    · simp only [List.nil_append, loop, pass, ending, Machine.turns, List.flatMap_singleton]
    · rw [List.nil_append, results_of_ending (by rw [pass, ending]) rest, pass]
      simp only [Machine.turns, List.nil_append, List.map_cons, List.map_nil]
  | cons p before ih =>
    obtain ⟨c, report⟩ := alive.exists_report p
    have ending := ending_of_not_endsWith report through.head
    have pass := pass_eq report
    have alive' := alive.turn p
    have through' := through.tail
    have results := results_of_no_ending (by rw [pass, ending]) (before ++ last :: rest)
    rw [Machine.driven_cons] at ends ⊢
    rw [pass] at results
    simp only [List.cons_append, loop, pass, ending, Machine.turns, results]
    -- From here on nothing but the outcome of the first turn matters.
    generalize e.machine.turn p = t at *
    obtain ⟨c', report', loop', results'⟩ := ih (e := { e with machine := t.machine }) alive' through' ends
    refine ⟨c', report', ?_, congrArg _ results'⟩
    simp only [loop', actionsAfter_machine, Record.after, List.flatMap_cons, List.append_assoc]

theorem run_of_end {settings : CommandLine.Settings} {random : RandomSource} {rom : RomFile}
    {notices : List Notice} (loads : boot settings random rom = .ok (e, notices)) (alive : e.machine.Alive)
    {before : List Pass} {last : Pass} (through : e.machine.GoesThrough before)
    (ends : (e.machine.driven before).EndsWith last) (rest : List Pass) :
    let passed := { e with window := e.window.opened }.results (before ++ last :: rest)
    passed.map (fun r => (r.report, r.machine)) =
        (e.machine.turns (before ++ [last])).map (fun t => (t.result, t.machine)) ∧
      ∃ c, ((e.machine.driven before).turn last).result = .ok c ∧
        run settings random rom (before ++ last :: rest) = {
          actions := .start :: e.window.openCommands.map .window ++
            (e.machine.turns (before ++ [last])).flatMap e.actionsAfter ++ [.quit]
          notices := notices ++ (e.machine.turns (before ++ [last])).flatMap noticesAfter
          ending := .exit (statusAfter c) } := by
  have ⟨c, report, loop, results⟩ :=
    loop_of_end (e := { e with window := e.window.opened }) alive through ends rest
  refine ⟨results, c, report, ?_⟩
  simp only [run, loads, loop, Record.after, actionsAfter_opened, List.append_assoc]

def loadedMachine (settings : CommandLine.Settings) (random : RandomSource) (rom : RomFile) : Machine :=
  (initialMachine settings random).serve (.loadRom settings.rom rom)

theorem initialMachine_alive (settings : CommandLine.Settings) (random : RandomSource) :
    (initialMachine settings random).Alive where
  range := Machine.powerOn_inRange ..
  fits _ := ⟨(by decide : (1 : Int) ≤ 64), (by decide : (1 : Int) ≤ 32)⟩

theorem loadedMachine_contents {settings : CommandLine.Settings} {random : RandomSource} {image : List UInt8}
    (named : settings.rom.Openable) (fits : image.length ≤ Memory.programLimit) :
    loadedMachine settings random (.contents image) = { initialMachine settings random with
      memory := (initialMachine settings random).memory.overwrite Memory.programStart image } := by
  simp only [loadedMachine, Machine.serve, Machine.loadRom_contents named fits]
  rfl

theorem boot_loads (settings : CommandLine.Settings) (random : RandomSource) {image : List UInt8}
    (named : settings.rom.Openable) (fits : image.length ≤ Memory.programLimit) :
    boot settings random (.contents image) = .ok
      ({ machine := loadedMachine settings random (.contents image)
         window := windowFor settings (loadedMachine settings random (.contents image))
         rate := settings.rate }, [.loaded image.length Memory.programStart]) := by
  rw [boot_contents settings random named fits, loadedMachine_contents named fits]
  rfl

theorem run_of_badName (settings : CommandLine.Settings) (unnamed : ¬settings.rom.Openable)
    (random : RandomSource) :
    ∃ e, settings.rom.error? = some e ∧
      ∀ rom passes, run settings random rom passes = unloaded settings (.badName e) := by
  cases refused : settings.rom.error? with
  | none => exact absurd (FileName.error?_eq_none_iff.mp refused) unnamed
  | some e =>
    refine ⟨e, rfl, fun rom passes => ?_⟩
    simp only [run, boot, Machine.loadRom, refused]
    rfl

theorem run_of_not_loaded {settings : CommandLine.Settings} (named : settings.rom.Openable)
    {rom : RomFile} (unfit : ∀ image, rom = .contents image → Memory.programLimit < image.length)
    (random : RandomSource) (passes : List Pass) :
    ∃ e, e.reported ∧ run settings random rom passes = unloaded settings e := by
  simp only [run, boot, Machine.loadRom, FileName.error?_eq_none_iff.mpr named]
  cases rom with
  | contents image =>
    have large : ¬image.length ≤ Memory.programLimit := Nat.not_le.mpr (unfit image rfl)
    simp only [Machine.load, if_neg large]
    exact ⟨_, rfl, rfl⟩
  | _ => exact ⟨_, rfl, rfl⟩

-- A run whose file cannot be asked for is brought down, and one whose program cannot be read or is too large ends
-- with status 1, both before anything is done outside. Any other run carries out all passes up to the first one that
-- ends it, and no more. Its cycles and its machines are those of a machine that holds the program and is given the keys
-- of these passes. The display is shown after the cycles that have drawn, and after each cycle there is one wait.
theorem run_is_driven (settings : CommandLine.Settings) (random : RandomSource) :
    (¬settings.rom.Openable → ∃ e, settings.rom.error? = some e ∧ ∀ rom passes,
      (run settings random rom passes).actions = [] ∧
      (run settings random rom passes).ending = .loadCrash (.badName e)) ∧
    (settings.rom.Openable →
      (∀ rom, (∀ image, rom = .contents image → 3584 < image.length) → ∀ passes,
        (run settings random rom passes).actions = [] ∧
        (run settings random rom passes).ending = .exit 1) ∧
      ∀ image, image.length ≤ 3584 →
        let fresh := loadedMachine settings random (.contents image)
        let e : Emulator := ⟨fresh, windowFor settings fresh, settings.rate⟩
        boot settings random (.contents image) = .ok (e, [.loaded image.length 0x200]) ∧
        ∀ before last rest, fresh.GoesThrough before → (fresh.driven before).EndsWith last →
          let turns := fresh.turns (before ++ [last])
          let passed := { e with window := e.window.opened }.results (before ++ last :: rest)
          (∀ t ∈ turns, ∃ c, t.result = .ok c ∧
            e.actionsAfter t = (if c.draw then e.showDisplay t.machine else []) ++ [.tick settings.rate]) ∧
          passed.map (fun r => (r.report, r.machine)) = turns.map (fun t => (t.result, t.machine)) ∧
          ∃ c, ((fresh.driven before).turn last).result = .ok c ∧
            run settings random (.contents image) (before ++ last :: rest) = {
              actions := .start :: e.window.openCommands.map .window ++
                turns.flatMap e.actionsAfter ++ [.quit]
              notices := .loaded image.length 0x200 :: turns.flatMap noticesAfter
              ending := .exit (if c.status = .stackFault ∨ c.status = .memoryFault then 2 else 0) }) := by
  refine ⟨fun unnamed => ?unnamed,
    fun named => ⟨fun rom unfit passes => ?notLoaded, fun image fits => ?loaded⟩⟩
  case unnamed =>
    obtain ⟨e, refused, run⟩ := run_of_badName settings unnamed random
    refine ⟨e, refused, fun rom passes => ?_⟩
    rw [run]
    exact ⟨rfl, rfl⟩
  case notLoaded =>
    have ⟨error, reported, notLoaded⟩ := run_of_not_loaded named unfit random passes
    rw [notLoaded]
    exact ⟨rfl, if_pos reported⟩
  case loaded =>
    intro fresh e
    have loads := boot_loads settings random named fits
    have alive : fresh.Alive := (initialMachine_alive settings random).serve _
    refine ⟨loads, fun before last rest through ends => ⟨fun t mem => ?_, run_of_end loads alive through ends rest⟩⟩
    have ⟨c, report⟩ := alive.turns mem
    exact ⟨c, report, by simp only [actionsAfter, report, e]⟩

def strayReturn : List UInt8 := [0x00, 0xE0, 0x00, 0xEE]

theorem fault_outweighs_closing :
    let settings := CommandLine.Settings.ofRom "stray"
    let fresh := loadedMachine settings (.cycle #[]) (.contents strayReturn)
    let first : Pass := ⟨[.keyUp Keyboard.escape, .other], []⟩
    settings.rom.Openable ∧ strayReturn.length ≤ 3584 ∧
      fresh.GoesThrough [first] ∧ (fresh.driven [first]).EndsWith .closing ∧
      (run settings (.cycle #[]) (.contents strayReturn) [first, .closing, {}]).ending = .exit 2 ∧
      (run settings (.cycle #[]) (.contents (List.replicate 3585 0)) []).ending = .exit 1 := by
  intro settings fresh first
  have named : settings.rom.Openable := by decide
  have fits : strayReturn.length ≤ 3584 := by decide
  have ⟨through, ends, fault⟩ : fresh.GoesThrough [first] ∧ (fresh.driven [first]).EndsWith .closing ∧
      ((fresh.driven [first]).turn .closing).result.map Cycle.status = .ok .stackFault := by
    simp only [fresh]
    rw [loadedMachine_contents named fits]
    decide +kernel
  have ⟨rejects, runs⟩ := (run_is_driven settings (.cycle #[])).right named
  have ⟨_, _, c, report, run⟩ := (runs strayReturn fits).right _ .closing [{}] through ends
  rw [report] at fault
  have status : c.status = .stackFault := Except.ok.inj fault
  rw [if_pos (.inl status)] at run
  refine ⟨named, fits, through, ends, congrArg Record.ending run, ?_⟩
  refine (rejects (.contents (List.replicate 3585 0)) (fun image same => ?_) []).right
  cases same
  rw [List.length_replicate]
  decide

theorem null_in_name_is_not_reported :
    CommandLine.parse ["a\x00b"] = .ok (.ofRom "a\x00b") ∧
      (run (.ofRom "a\x00b") (.cycle #[]) .missing [{}]).ending ≠ .exit 1 := by
  refine ⟨by decide +kernel, ?_⟩
  obtain ⟨e, _, run⟩ := run_of_badName (.ofRom "a\x00b") (by decide) (.cycle #[])
  rw [run]
  exact fun same => by cases same

end Emulator
end Chip8
