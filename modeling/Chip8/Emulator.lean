import Chip8.CommandLine.Settings
import Chip8.Keyboard
import Chip8.Machine.Cycle
import Chip8.Machine.Keys
import Chip8.Machine.Program
import Chip8.Window

namespace Chip8

inductive Event where
  | quit
  | keyDown (key : KeyCode)
  | keyUp (key : KeyCode)
  | other
deriving DecidableEq

def Event.stops : Event → Bool
  | quit        => true
  | keyDown key => key == Keyboard.escape
  | keyUp _     => false
  | other       => false

structure Pass where
  events : List Event := []
  held : List KeyCode := []
deriving DecidableEq

namespace Pass

def stops (p : Pass) : Bool :=
  p.events.any Event.stops

def pressed (p : Pass) (key : KeyCode) : Bool :=
  p.held.contains key

def closing : Pass where
  events := [.quit]

end Pass

inductive Action where
  | start
  | window (c : Command)
  | tick (rate : Option Int)
  | quit
deriving DecidableEq

def LoadError.reported : LoadError → Bool
  | tooLarge .. | missing _ | directory _ | nameTooLong _ | refused .. => true
  | notBytes | badName _ => false

inductive Ending where
  | exit (status : Nat)
  | crash (c : Crash)
  | loadCrash (e : LoadError)
deriving DecidableEq

structure Record where
  actions : List Action
  notices : List Notice
  ending : Ending

namespace Record

def after (actions : List Action) (notices : List Notice) (rest : Record) : Record where
  actions := actions ++ rest.actions
  notices := notices ++ rest.notices
  ending := rest.ending

end Record

structure Emulator where
  machine : Machine
  window : Window
  rate : Option Int

structure PassResult where
  machine : Machine
  report : Except Crash Cycle
  actions : List Action
  notices : List Notice
  ending : Option Ending

namespace Emulator

def loadFailure : Nat := 1

def faultFailure : Nat := 2

def showDisplay (e : Emulator) (m : Machine) : List Action :=
  (e.window.renderCommands m.display).map .window

def cycleNotices (c : Cycle) : List Notice :=
  (if c.tone then [.beep] else []) ++
    match c.fault with
    | some f => if f.status.halts then [.halting f] else []
    | none   => []

def endingAfter (p : Pass) (c : Cycle) : Option Ending :=
  if c.status.halts then some (.exit faultFailure)
  else if p.stops then some (.exit 0)
  else none

-- The pass in which the emulator is told to stop, or in which a fault halts the program, is carried out to its end.
def pass (e : Emulator) (p : Pass) : PassResult :=
  let turn := (e.machine.withKeys (Keyboard.states p.pressed)).step
  match turn.result with
  | .error c =>
    { machine := turn.machine
      report := .error c
      actions := []
      notices := turn.notices
      ending := some (.crash c) }
  | .ok c =>
    { machine := turn.machine
      report := .ok c
      actions := (if c.draw then e.showDisplay turn.machine else []) ++ [.tick e.rate]
      notices := turn.notices ++ cycleNotices c
      ending := endingAfter p c }

-- When no more passes are given the window is closed. Whatever ends the run, the surroundings are left in order.
def loop (e : Emulator) : List Pass → Record
  | [] =>
    let r := e.pass .closing
    { actions := r.actions ++ [.quit], notices := r.notices, ending := r.ending.getD (.exit 0) }
  | p :: rest =>
    let r := e.pass p
    match r.ending with
    | some ending => { actions := r.actions ++ [.quit], notices := r.notices, ending }
    | none        => .after r.actions r.notices (loop { e with machine := r.machine } rest)

def initialMachine (settings : CommandLine.Settings) (random : RandomSource) : Machine :=
  .powerOn .standard (if settings.wrap then .wrap else .clip) Machine.minStackSize random (some 0)

def windowFor (settings : CommandLine.Settings) (m : Machine) : Window :=
  .closed settings.scale m.display.width m.display.height

def boot (settings : CommandLine.Settings) (random : RandomSource) (rom : RomFile) :
    Except LoadError (Emulator × List Notice) := do
  let (machine, notices) ← (initialMachine settings random).loadRom settings.rom rom
  return ({ machine, window := windowFor settings machine, rate := settings.rate }, notices)

def unloaded (settings : CommandLine.Settings) (e : LoadError) : Record where
  actions := []
  notices := if e.reported then [.notLoaded settings.rom.shown e.message] else []
  ending := if e.reported then .exit loadFailure else .loadCrash e

def run (settings : CommandLine.Settings) (random : RandomSource) (rom : RomFile) (passes : List Pass) :
    Record :=
  match boot settings random rom with
  | .error e => unloaded settings e
  | .ok (e, notices) =>
    .after (.start :: e.window.openCommands.map .window) notices
      ({ e with window := e.window.opened }.loop passes)

def threshold (settings : CommandLine.Settings) : Level :=
  if settings.verbose then .debug else .info

def shown (settings : CommandLine.Settings) (notices : List Notice) : List Notice :=
  Notice.atLeast (threshold settings) notices

end Emulator
end Chip8
