import Chip8.Machine.Basic
import Chip8.FileName
import Chip8.Notice

namespace Chip8

inductive LoadError where
  | tooLarge (size limit : Int)
  | notBytes
  | missing (path : FileName)
  | directory (path : FileName)
  | nameTooLong (path : FileName)
  | refused (path : FileName) (number : Nat) (reason : String)
  | badName (e : FileName.Error)
deriving DecidableEq

def LoadError.message : LoadError → String
  | tooLarge size limit =>
    "Program image of " ++ toString size ++ " bytes exceeds the " ++ toString limit ++ " bytes available"
  | notBytes         => "bytes must be in range(0, 256)"
  | missing path     => "[Errno 2] No such file or directory: " ++ Quoted.text path
  | directory path   => "[Errno 21] Is a directory: " ++ Quoted.text path
  | nameTooLong path => "[Errno 36] File name too long: " ++ Quoted.text path
  | refused path number reason => "[Errno " ++ toString number ++ "] " ++ reason ++ ": " ++ Quoted.text path
  | badName e        => e.message

inductive RomFile where
  | missing
  | directory
  | nameTooLong
  | refused (number : Nat) (reason : String)
  | contents (bytes : List UInt8)

namespace Machine

def load (m : Machine) (image : List UInt8) : Except LoadError (Machine × List Notice) :=
  if image.length ≤ Memory.programLimit then
    .ok ({ m with memory := m.memory.overwrite Memory.programStart image },
      [.loaded image.length Memory.programStart])
  else
    .error (.tooLarge image.length Memory.programLimit)

def bytes? (values : List Int) : Option (List UInt8) :=
  if values.all fun n => 0 ≤ n && n < 256 then
    some (values.map fun n => UInt8.ofNat n.toNat)
  else
    none

def loadNumbers (m : Machine) (values : List Int) : Except LoadError (Machine × List Notice) :=
  if values.length ≤ Memory.programLimit then
    match bytes? values with
    | some image => m.load image
    | none       => .error .notBytes
  else
    .error (.tooLarge values.length Memory.programLimit)

def loadRom (m : Machine) (path : FileName) (file : RomFile) : Except LoadError (Machine × List Notice) :=
  match path.error? with
  | some e => .error (.badName e)
  | none   =>
    match file with
    | .missing               => .error (.missing path)
    | .directory             => .error (.directory path)
    | .nameTooLong           => .error (.nameTooLong path)
    | .refused number reason => .error (.refused path number reason)
    | .contents image        => m.load image

theorem loadRom_contents {m : Machine} {path : FileName} {image : List UInt8}
    (named : path.Openable) (fits : image.length ≤ Memory.programLimit) :
    m.loadRom path (.contents image) =
      .ok ({ m with memory := m.memory.overwrite Memory.programStart image },
        [.loaded image.length Memory.programStart]) := by
  simp only [loadRom, FileName.error?_eq_none_iff.mpr named, load, fits]
  rfl

end Machine
end Chip8
