import Chip8.Text.Digit

namespace Chip8.Text

def isBlank (c : Char) : Bool :=
  c ∈ ['\t', '\n', '\x0b', '\x0c', '\r', ' ', '\u0085', '\u00a0', '\u1680', '\u2028', '\u2029', '\u202f',
    '\u205f', '\u3000']
  || (0x2000 ≤ c.toNat && c.toNat ≤ 0x200A)

namespace Integer

def maxDigits : Nat := 4300

def digits? : List Char → Option (List Nat)
  | [] => none
  | [c] => (digitValue? c).map ([·])
  | c :: '_' :: rest => do
    let first ← digitValue? c
    let others ← digits? rest
    return first :: others
  | c :: rest => do
    let first ← digitValue? c
    let others ← digits? rest
    return first :: others

def ofDigits (digits : List Nat) : Nat :=
  digits.foldl (fun n d => 10 * n + d) 0

def magnitude? (s : List Char) : Option Nat := do
  let digits ← digits? s
  if digits.length ≤ maxDigits then some (ofDigits digits) else none

def signed? : List Char → Option Int
  | '-' :: rest => (magnitude? rest).map fun n => -(n : Int)
  | '+' :: rest => (magnitude? rest).map fun n => (n : Int)
  | s           => (magnitude? s).map fun n => (n : Int)

def trim (s : List Char) : List Char :=
  ((s.dropWhile isBlank).reverse.dropWhile isBlank).reverse

def ofText? (s : String) : Option Int :=
  signed? (trim s.toList)

example : ofText? " -1_000\n" = some (-1000) := by cbv
example : ofText? "1__0" = none := by cbv
example : ofText? "+" = none := by cbv

end Integer
end Chip8.Text
