namespace Chip8.CommandLine

inductive Switch where
  | help
  | scale
  | rate
  | wrap
  | verbose
deriving DecidableEq

def defaultScale : Int := 10

def defaultRate : Int := 60

namespace Switch

def all : List Switch := [help, scale, rate, wrap, verbose]

def names : Switch → List String
  | help    => ["-h", "--help"]
  | scale   => ["-s"]
  | rate    => ["-r"]
  | wrap    => ["-w"]
  | verbose => ["-v", "--verbose"]

def valueName? : Switch → Option String
  | scale => some "SCALE"
  | rate  => some "RATE"
  | _     => none

def takesValue (s : Switch) : Bool :=
  s.valueName?.isSome

def explanation : Switch → List String
  | help    => ["show this help message and exit"]
  | scale   => ["the scale factor to apply to the display (default is " ++ toString defaultScale ++ ")"]
  | rate    => ["the number of cycles to run per second (default is " ++ toString defaultRate ++ ")"]
  | wrap    => ["wrap sprites drawn off the edge of the screen around to the", "other side"]
  | verbose => ["log debug diagnostics, including register dumps on faults"]

def label (s : Switch) : String :=
  "/".intercalate s.names

def withValue (s : Switch) (name : String) : String :=
  match s.valueName? with
  | some value => name ++ " " ++ value
  | none       => name

def named : List (String × Switch) :=
  all.flatMap fun s => s.names.map (·, s)

def ofName? (name : String) : Option Switch :=
  named.lookup name

def ofLetter? (c : Char) : Option Switch :=
  ofName? (String.ofList ['-', c])

end Switch
end Chip8.CommandLine
