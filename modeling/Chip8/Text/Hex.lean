namespace Chip8.Hex

def digits (n : Nat) : List Char :=
  (Nat.toDigits 16 n).map Char.toUpper

def sign (n : Int) : List Char :=
  if n < 0 then ['-'] else []

-- A minus sign counts towards the width.
def missing (width : Nat) (n : Int) : Nat :=
  width - ((sign n).length + (digits n.natAbs).length)

def zeroPadded (width : Nat) (n : Int) : String :=
  String.ofList (sign n ++ List.replicate (missing width n) '0' ++ digits n.natAbs)

def rightAligned (width : Nat) (n : Int) : String :=
  String.ofList (List.replicate (missing width n) ' ' ++ sign n ++ digits n.natAbs)

@[simp]
theorem length_zeroPadded (width : Nat) (n : Int) :
    (zeroPadded width n).length = max width ((sign n).length + (digits n.natAbs).length) := by
  simp [zeroPadded, missing]
  omega

@[simp]
theorem length_rightAligned (width : Nat) (n : Int) :
    (rightAligned width n).length = max width ((sign n).length + (digits n.natAbs).length) := by
  simp [rightAligned, missing]
  omega

example : zeroPadded 4 (-1) = "-001" := by cbv
example : zeroPadded 4 0x1ABCD = "1ABCD" := by cbv
example : rightAligned 4 0x2A0 = " 2A0" := by cbv

end Chip8.Hex
