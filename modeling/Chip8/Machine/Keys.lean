import Chip8.Machine.Basic

namespace Chip8

inductive KeyError where
  | wrongCount (count : Nat)
  | noSuchKey (e : IndexError)
deriving DecidableEq

def KeyError.message : KeyError → String
  | wrongCount count => "Expected 16 key states, got " ++ toString count
  | noSuchKey e      => e.writeMessage

namespace Machine

def withKeys (m : Machine) (states : Vector Bool 16) : Machine :=
  { m with keys := states }

def setKeys (m : Machine) (states : Array Bool) : Except KeyError Machine :=
  if h : states.size = 16 then
    .ok (m.withKeys ⟨states, h⟩)
  else
    .error (.wrongCount states.size)

-- A key number is an index, so that `-1` names key F.
def setKey (m : Machine) (k : Int) (down : Bool) : Except KeyError Machine :=
  match Index.entry 16 k with
  | .ok key  => .ok { m with keys := m.keys.set key down key.isLt }
  | .error e => .error (.noSuchKey e)

def press (m : Machine) (k : Int) : Except KeyError Machine :=
  m.setKey k true

def release (m : Machine) (k : Int) : Except KeyError Machine :=
  m.setKey k false

theorem setKeys_toArray (m : Machine) (states : Vector Bool 16) :
    m.setKeys states.toArray = .ok (m.withKeys states) := by
  simp [setKeys]

end Machine
end Chip8
