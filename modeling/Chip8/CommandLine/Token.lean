import Chip8.CommandLine.Usage
import Chip8.Text.Digit

namespace Chip8.CommandLine

inductive Token where
  | plain (word : String)
  | switch (s : Switch) (long : Bool) (value : Option (List Char))
  | unknown (argument : String)
deriving DecidableEq

namespace Token

def splitValue (argument : List Char) : List Char × Option (List Char) :=
  match argument.span (· ≠ '=') with
  | (name, [])         => (name, none)
  | (name, _ :: value) => (name, some value)

def withoutBreak (text : List Char) : List Char :=
  if text.getLast? = some '\n' then text.dropLast else text

def isDigits (text : List Char) : Bool :=
  text.all fun c => (Text.digitValue? c).isSome

def isNumber (text : List Char) : Bool :=
  match text.span (· ≠ '.') with
  | (whole, [])            => !whole.isEmpty && isDigits whole
  | (whole, _ :: fraction) => isDigits whole && !fraction.isEmpty && isDigits fraction

def longNames (name : List Char) : List (String × Switch) :=
  Switch.named.filter fun (n, _) => name.isPrefixOf n.toList

-- A long name may be shortened as long as one switch fits. What looks like a negative number, or holds a blank, is a
-- plain word.
def ofDashed (argument : List Char) (second : Char) (rest : List Char) : Except UsageError Token :=
  let (name, value) := splitValue argument
  let text := String.ofList argument
  let other := if isNumber (withoutBreak (second :: rest)) || ' ' ∈ argument then plain text else unknown text
  match value, Switch.ofName? (String.ofList name) with
  | some _, some s => .ok (switch s (second = '-') value)
  | _, _ =>
    if second = '-' then
      match longNames name with
      | []       => .ok other
      | [(_, s)] => .ok (switch s true value)
      | several  => .error (.ambiguous text (several.map (·.1)))
    else
      match Switch.ofLetter? second with
      | some s => .ok (switch s false (some rest))
      | none   => .ok other

def ofArgument (argument : String) : Except UsageError Token :=
  match argument.toList with
  | '-' :: second :: rest =>
    match Switch.ofName? argument with
    | some s => .ok (switch s (second = '-') none)
    | none   => ofDashed ('-' :: second :: rest) second rest
  | _ => .ok (plain argument)

end Token
end Chip8.CommandLine
