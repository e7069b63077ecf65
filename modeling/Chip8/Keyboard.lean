namespace Chip8

abbrev KeyCode := Nat

namespace Keyboard

-- The machine's keys lie on the left-hand side of the keyboard:
--
--     machine    keyboard
--     1 2 3 C    1 2 3 4
--     4 5 6 D    Q W E R
--     7 8 9 E    A S D F
--     A 0 B F    Z X C V
def layout : Vector Char 16 :=
  #v['x', '1', '2', '3', 'q', 'w', 'e', 'a', 's', 'd', 'z', 'c', '4', 'r', 'f', 'v']

def code (key : Fin 16) : KeyCode :=
  (layout.get key).toNat

def escape : KeyCode := 27

def codeOf? (name : String) : Option KeyCode :=
  match name.toList with
  | [c] => some c.toNat
  | _ =>
    match name with
    | "escape" => some escape
    | "space"  => some 32
    | "up"     => some 0x40000052
    | "kp1"    => some 0x40000059
    | _        => none

def states (pressed : KeyCode → Bool) : Vector Bool 16 :=
  Vector.ofFn fun key => pressed (code key)

theorem code_injective {j k : Fin 16} (h : code j = code k) : j = k := by
  revert j k
  decide +kernel

theorem getElem_states (pressed : KeyCode → Bool) (key : Fin 16) :
    (states pressed)[key] = pressed (code key) := by
  simp [states]

end Keyboard
end Chip8
