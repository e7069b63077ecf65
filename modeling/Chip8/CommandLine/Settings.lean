import Chip8.CommandLine.Token
import Chip8.FileName
import Chip8.Text.Integer

namespace Chip8.CommandLine

structure Settings where
  rom : FileName
  scale : Option Int
  rate : Option Int
  wrap : Bool
  verbose : Bool
deriving DecidableEq

structure Draft where
  rom : Option String := none
  scale : Option Int := some defaultScale
  rate : Option Int := some defaultRate
  wrap : Bool := false
  verbose : Bool := false
  extras : List String := []

namespace Draft

def addExtras (d : Draft) (arguments : List String) : Draft :=
  { d with extras := d.extras ++ arguments }

def addPlain (d : Draft) (word : String) : Draft :=
  match d.rom with
  | none   => { d with rom := some word }
  | some _ => d.addExtras [word]

def addSeparated (d : Draft) (words : List String) : Draft :=
  match d.rom, words with
  | none, word :: rest => { d with rom := some word }.addExtras rest
  | _, _               => d.addExtras ("--" :: words)

-- Takes the last plain word before `--` and the words after it. Where that word names the ROM, `--`
-- belongs to it and is no extra argument.
def addLast (d : Draft) (word : String) (separated : Option (List String)) : Draft :=
  match d.rom, separated with
  | none, words   => { d with rom := some word }.addExtras (words.getD [])
  | _, some words => (d.addExtras [word]).addSeparated words
  | _, none       => d.addExtras [word]

-- The value `--` stands for no value, which leaves the switch without a number.
def number (s : Switch) (value : List Char) : Except Exit (Option Int) :=
  let text := String.ofList value
  if text = "--" then
    .ok none
  else
    match Text.Integer.ofText? text with
    | some n => .ok (some n)
    | none   => .error (.refused (.notInteger s text))

def addSwitch (d : Draft) (s : Switch) (value : List Char) : Except Exit Draft := do
  match s with
  | .help    => .error .help
  | .scale   => return { d with scale := ← number s value }
  | .rate    => return { d with rate := ← number s value }
  | .wrap    => return { d with wrap := true }
  | .verbose => return { d with verbose := true }

def addSwitches (d : Draft) : List Switch → Except Exit Draft
  | [] => .ok d
  | s :: rest => do
    let d ← d.addSwitch s []
    d.addSwitches rest

def settings (d : Draft) : Except Exit Settings :=
  match d.rom, d.extras with
  | none, _         => .error (.refused .missingRom)
  | some rom, []    => .ok { d with rom := FileName.ofString rom }
  | some _, extras  => .error (.refused (.unrecognized extras))

end Draft

structure Cluster where
  before : List Switch
  last : Switch
  value : Option (List Char)

namespace Cluster

def ofLetters (s : Switch) : List Char → Except UsageError Cluster
  | [] => .ok { before := [], last := s, value := none }
  | c :: rest =>
    if s.takesValue then
      .ok { before := [], last := s, value := some (c :: rest) }
    else
      match Switch.ofLetter? c with
      | none => .error (.ignoredValue s (String.ofList (c :: rest)))
      | some next => do
        let cluster ← ofLetters next rest
        return { cluster with before := s :: cluster.before }

def ofSwitch (s : Switch) (long : Bool) : Option (List Char) → Except UsageError Cluster
  | none => .ok { before := [], last := s, value := none }
  | some value =>
    if s.takesValue then
      .ok { before := [], last := s, value := some value }
    else if long || value.isEmpty then
      .error (.ignoredValue s (String.ofList value))
    else
      ofLetters s value

def lacksValue (c : Cluster) : Bool :=
  c.last.takesValue && c.value.isNone

end Cluster

def refuse (result : Except UsageError α) : Except Exit α :=
  result.mapError .refused

def readTokens (separated : Option (List String)) : List Token → Draft → Except Exit Draft
  | [], d =>
    match separated with
    | none       => .ok d
    | some words => .ok (d.addSeparated words)
  | [.plain word], d => .ok (d.addLast word separated)
  | .plain word :: rest, d => readTokens separated rest (d.addPlain word)
  | .unknown argument :: rest, d => readTokens separated rest (d.addExtras [argument])
  | .switch s long value :: rest, d => do
    let cluster ← refuse (Cluster.ofSwitch s long value)
    if cluster.lacksValue then
      match rest with
      | .plain word :: rest => do
        let d ← d.addSwitches cluster.before
        let d ← d.addSwitch cluster.last word.toList
        readTokens separated rest d
      | _ => .error (.refused (.missingValue cluster.last))
    else do
      let d ← d.addSwitches cluster.before
      let d ← d.addSwitch cluster.last (cluster.value.getD [])
      readTokens separated rest d

def separate (arguments : List String) : List String × Option (List String) :=
  match arguments.span (· ≠ "--") with
  | (before, [])         => (before, none)
  | (before, _ :: after) => (before, some after)

def parse (arguments : List String) : Except Exit Settings := do
  let (before, after) := separate arguments
  let tokens ← refuse (before.mapM Token.ofArgument)
  let draft ← readTokens after tokens {}
  draft.settings

end Chip8.CommandLine
