import Chip8.Emulator

namespace Chip8.Terminal

def heldKeys (line : String) : List KeyCode :=
  (line.split Char.isWhitespace).toList.filterMap fun name => Keyboard.codeOf? name.toString

-- Some numbers come negated, with a reason that starts in lower case.
def refusedFile (number : UInt32) (reason : String) : RomFile :=
  match (min number (-number)).toNat with
  | 2      => .missing
  | 21     => .directory
  | 36     => .nameTooLong
  | number => .refused number reason.capitalize

def unreadFile : IO.Error → RomFile
  | .noFileOrDirectory _ number reason
  | .interrupted _ number reason
  | .invalidArgument _ number reason
  | .permissionDenied _ number reason
  | .resourceExhausted _ number reason
  | .inappropriateType _ number reason
  | .noSuchThing _ number reason
  | .alreadyExists _ number reason
  | .resourceBusy number reason
  | .resourceVanished number reason
  | .unsupportedOperation number reason
  | .hardwareFault number reason
  | .unsatisfiedConstraints number reason
  | .illegalOperation number reason
  | .protocolError number reason
  | .timeExpired number reason
  | .otherError number reason => refusedFile number reason
  -- These come without a number: the input or output has failed.
  | .unexpectedEof | .userError _ => .refused 5 "Input/output error"

def readRom (path : String) : IO RomFile := do
  try
    return .contents (← IO.FS.readBinFile path).toList
  catch error =>
    return unreadFile error

def randomSource : IO RandomSource := do
  let mut bytes := #[]
  for _ in [0 : 4096] do
    bytes := bytes.push (UInt8.ofNat (← IO.rand 0 255))
  return .cycle bytes

def report (settings : CommandLine.Settings) (notices : List Notice) : IO Unit := do
  for n in Emulator.shown settings notices do
    IO.eprintln (n.level.name ++ " " ++ n.text)

def wait (rate : Option Int) : IO Unit :=
  match rate with
  | some rate => unless rate ≤ 0 do IO.sleep (1000 / rate).toNat.toUInt32
  | none      => return

def finish (ending : Ending) : IO UInt32 := do
  match ending with
  | .exit status => return status.toUInt32
  | .crash c     => IO.eprintln c.message; return 1
  | .loadCrash e => IO.eprintln e.message; return 1

-- Every line of input is a pass: it names the keys that are held. The end of the input closes the window.
partial def loop (settings : CommandLine.Settings) (e : Emulator) : IO UInt32 := do
  let line ← (← IO.getStdin).getLine
  let p : Pass := if line.isEmpty then .closing else { held := heldKeys line }
  let r := e.pass p
  if r.actions.contains (.window .flip) then
    IO.println r.machine.display.text
  report settings r.notices
  wait e.rate
  match r.ending with
  | none        => loop settings { e with machine := r.machine }
  | some ending => finish ending

def run (settings : CommandLine.Settings) : IO UInt32 := do
  match Emulator.boot settings (← randomSource) (← readRom settings.rom.shown) with
  | .error e =>
    let r := Emulator.unloaded settings e
    report settings r.notices
    finish r.ending
  | .ok (e, notices) =>
    report settings notices
    loop settings e

end Chip8.Terminal

def main (arguments : List String) : IO UInt32 := do
  match Chip8.CommandLine.parse arguments with
  | .ok settings => Chip8.Terminal.run settings
  | .error exit  =>
    IO.print exit.output
    IO.eprint exit.errorOutput
    return exit.code.toUInt32
