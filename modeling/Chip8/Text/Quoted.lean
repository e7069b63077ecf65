import Chip8.Text.CodePoint
import Chip8.Text.Printable

namespace Chip8.Quoted

def single : Char := '\x27'

def double : Char := '\x22'

def backslash : Char := '\x5c'

-- Single quotes stand around a text, unless it holds one of them and no double quote.
def mark (s : List CodePoint) : Char :=
  if .ofChar single ∈ s ∧ .ofChar double ∉ s then double else single

def code (width n : Nat) : List Char :=
  let digits := Nat.toDigits 16 n
  List.replicate (width - digits.length) '0' ++ digits

def numbered (n : Nat) : List Char :=
  if n < 0x100 then
    backslash :: 'x' :: code 2 n
  else if n < 0x10000 then
    backslash :: 'u' :: code 4 n
  else
    backslash :: 'U' :: code 8 n

def escape (mark c : Char) : List Char :=
  if c = mark ∨ c = backslash then
    [backslash, c]
  else if c = '\t' then
    [backslash, 't']
  else if c = '\n' then
    [backslash, 'n']
  else if c = '\r' then
    [backslash, 'r']
  else if Text.isPrintable c then
    [c]
  else
    numbered c.toNat

def quote (s : List CodePoint) : List Char :=
  mark s :: s.flatMap (fun p => p.char?.elim (numbered p.val) (escape (mark s))) ++ [mark s]

def text (s : List CodePoint) : String :=
  String.ofList (quote s)

example : quote (CodePoint.ofString "a\n") = [single, 'a', backslash, 'n', single] := by decide +kernel
example : quote (CodePoint.ofString "\x27") = [double, single, double] := by decide +kernel
example : quote [⟨0xD800, by decide⟩] = [single, backslash, 'u', 'd', '8', '0', '0', single] := by decide +kernel

end Chip8.Quoted
