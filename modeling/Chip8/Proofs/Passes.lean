import Chip8.Emulator

namespace Chip8

-- The settings of a command line that only names the ROM.
def CommandLine.Settings.ofRom (rom : String) : CommandLine.Settings where
  rom := FileName.ofString rom
  scale := some defaultScale
  rate := some defaultRate
  wrap := false
  verbose := false

namespace Emulator

def after (e : Emulator) (r : PassResult) : Emulator :=
  { e with machine := r.machine }

def results (e : Emulator) : List Pass → List PassResult
  | []        => [e.pass .closing]
  | p :: rest =>
    match (e.pass p).ending with
    | some _ => [e.pass p]
    | none   => e.pass p :: (e.after (e.pass p)).results rest

variable {e : Emulator}

theorem results_of_ending {p : Pass} {ending : Ending} (h : (e.pass p).ending = some ending)
    (rest : List Pass) : e.results (p :: rest) = [e.pass p] := by
  simp only [results, h]

theorem results_of_no_ending {p : Pass} (h : (e.pass p).ending = none) (rest : List Pass) :
    e.results (p :: rest) = e.pass p :: (e.after (e.pass p)).results rest := by
  simp only [results, h]

theorem results_eq_cons (e : Emulator) (passes : List Pass) :
    ∃ p tail, e.results passes = e.pass p :: tail ∧
      (tail = [] ∨ ∃ rest, tail = (e.after (e.pass p)).results rest) := by
  cases passes with
  | nil => exact ⟨_, _, rfl, .inl rfl⟩
  | cons p rest =>
    cases ending : (e.pass p).ending with
    | some _ => exact ⟨_, _, results_of_ending ending rest, .inl rfl⟩
    | none   => exact ⟨_, _, results_of_no_ending ending rest, .inr ⟨rest, rfl⟩⟩

theorem loop_actions (e : Emulator) (passes : List Pass) :
    (e.loop passes).actions = (e.results passes).flatMap (·.actions) ++ [.quit] := by
  induction passes generalizing e with
  | nil => simp [loop, results]
  | cons p rest ih =>
    cases ending : (e.pass p).ending with
    | some _ => simp only [loop, results_of_ending ending, ending, List.flatMap_singleton]
    | none   =>
      simp only [loop, results_of_no_ending ending, ending, Record.after, List.flatMap_cons, List.append_assoc]
      exact congrArg _ (ih _)

theorem boot_contents (settings : CommandLine.Settings) (random : RandomSource) {image : List UInt8}
    (named : settings.rom.Openable) (fits : image.length ≤ Memory.programLimit) :
    boot settings random (.contents image) = .ok
      ({ machine := { initialMachine settings random with
            memory := (initialMachine settings random).memory.overwrite Memory.programStart image }
         window := windowFor settings (initialMachine settings random)
         rate := settings.rate }, [.loaded image.length Memory.programStart]) := by
  simp only [boot, Machine.loadRom_contents named fits]
  rfl

end Emulator
end Chip8
