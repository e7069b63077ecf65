import Chip8.Text.Quoted

namespace Chip8

-- The system takes names as bytes. Surrogates from U+DC80 to U+DCFF stand for single bytes that are no text.
abbrev FileName := List CodePoint

def CodePoint.StandsForByte (p : CodePoint) : Prop :=
  0xDC80 ≤ p.val ∧ p.val ≤ 0xDCFF

instance (p : CodePoint) : Decidable p.StandsForByte :=
  inferInstanceAs (Decidable (_ ∧ _))

namespace FileName

def ofString (s : String) : FileName :=
  CodePoint.ofString s

def shown (n : FileName) : String :=
  String.ofList (n.flatMap fun p => p.char?.elim (Quoted.numbered p.val) fun c => [c])

def Openable (n : FileName) : Prop :=
  ∀ p ∈ n, p.val ≠ 0 ∧ (p.IsSurrogate → p.StandsForByte)

instance (n : FileName) : Decidable n.Openable :=
  inferInstanceAs (Decidable (∀ p ∈ n, _))

inductive Error where
  | surrogates (first : Nat) (run : List CodePoint)
  | null
deriving DecidableEq

def Error.message : Error → String
  | surrogates first run =>
    "'utf-8' codec can't encode character" ++
      (match run with
      | [p] => " '" ++ String.ofList (Quoted.numbered p.val) ++ "' in position " ++ toString first
      | _   => "s in position " ++ toString first ++ "-" ++ toString (first + run.length - 1)) ++
      ": surrogates not allowed"
  | null => "embedded null byte"

-- Surrogates are found before null characters are looked for.
def error? (n : FileName) : Option Error :=
  match n.findIdx? fun p => p.IsSurrogate ∧ ¬p.StandsForByte with
  | some first => some (.surrogates first ((n.drop first).takeWhile fun p => p.IsSurrogate))
  | none       => if n.any (·.val = 0) then some .null else none

theorem error?_eq_none_iff {n : FileName} : n.error? = none ↔ n.Openable := by
  simp only [error?, Openable]
  constructor
  case mp =>
    intro none p mem
    split at none
    case h_1 => cases none
    case h_2 encodes =>
      split at none
      case isTrue => cases none
      case isFalse full =>
        have encoded := List.findIdx?_eq_none_iff.mp encodes p mem
        simp_all
  case mpr =>
    intro openable
    have encodes : n.findIdx? (fun p => p.IsSurrogate ∧ ¬p.StandsForByte) = none := by
      refine List.findIdx?_eq_none_iff.mpr fun p mem => ?_
      simpa using (openable p mem).right
    rw [encodes]
    simpa using fun p mem => (openable p mem).left

example : error? [⟨0xDC80, by decide⟩, ⟨0xD900, by decide⟩, ⟨0xDFFF, by decide⟩] =
    some (.surrogates 1 [⟨0xD900, by decide⟩, ⟨0xDFFF, by decide⟩]) := by decide

end FileName
end Chip8
