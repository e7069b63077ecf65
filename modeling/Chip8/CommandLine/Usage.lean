import Chip8.CommandLine.Switch
import Chip8.Text.Quoted

namespace Chip8.CommandLine

inductive UsageError where
  | ambiguous (argument : String) (names : List String)
  | ignoredValue (s : Switch) (value : String)
  | missingValue (s : Switch)
  | notInteger (s : Switch) (value : String)
  | missingRom
  | unrecognized (arguments : List String)
deriving DecidableEq

def UsageError.message : UsageError → String
  | ambiguous argument names =>
    "ambiguous option: " ++ argument ++ " could match " ++ ", ".intercalate names
  | ignoredValue s value =>
    "argument " ++ s.label ++ ": ignored explicit argument " ++ Quoted.text (CodePoint.ofString value)
  | missingValue s => "argument " ++ s.label ++ ": expected one argument"
  | notInteger s value => "argument " ++ s.label ++ ": invalid int value: " ++ Quoted.text (CodePoint.ofString value)
  | missingRom => "the following arguments are required: rom"
  | unrecognized arguments => "unrecognized arguments: " ++ " ".intercalate arguments

def program : String := "chip8vm"

def usage : String :=
  let switches := Switch.all.map fun s => "[" ++ s.withValue (s.names.headD "") ++ "]"
  "usage: " ++ " ".intercalate (program :: switches ++ ["rom"]) ++ "\n"

def entry (word : String) (explanation : List String) : String :=
  let indent := String.ofList (List.replicate 17 ' ')
  let gap := String.ofList (List.replicate (15 - word.length) ' ')
  "  " ++ word ++ gap ++ ("\n" ++ indent).intercalate explanation ++ "\n"

def help : String :=
  usage
  ++ "\nStarts a simple Chip 8 emulator\n"
  ++ "\npositional arguments:\n"
  ++ entry "rom" ["the ROM file to load on startup"]
  ++ "\noptions:\n"
  ++ String.join (Switch.all.map fun s =>
      entry (", ".intercalate (s.names.map s.withValue)) s.explanation)

inductive Exit where
  | help
  | refused (e : UsageError)
deriving DecidableEq

namespace Exit

def code : Exit → Nat
  | help      => 0
  | refused _ => 2

def output : Exit → String
  | help      => CommandLine.help
  | refused _ => ""

def errorOutput : Exit → String
  | help      => ""
  | refused e => usage ++ program ++ ": error: " ++ e.message ++ "\n"

end Exit
end Chip8.CommandLine
