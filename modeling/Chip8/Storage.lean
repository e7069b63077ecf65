import Chip8.Index

namespace Chip8

inductive StorageError where
  | wide
  | full
deriving DecidableEq

def StorageError.message : StorageError → String
  | wide => Index.wideMessage
  | full => ""

namespace Storage

-- Counts below zero need no room.
def check (room : Nat) (count : Int) (entrySize : Nat) : Except StorageError Unit :=
  if ¬ Index.Fits count then
    .error .wide
  else if room < count * entrySize then
    .error .full
  else
    .ok ()

end Storage
end Chip8
