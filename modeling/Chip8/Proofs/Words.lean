import Chip8.Instruction

namespace Chip8
namespace Word

theorem val_family (w : UInt16) : (fields w.toNat).family.val = w.toNat / 0x1000 := by
  have := w.toNat_lt
  show ((w.toNat : Int) / 4096 % 16).toNat = w.toNat / 4096
  omega

theorem toNat_nn (w : UInt16) : (fields w.toNat).nn.toNat = w.toNat % 0x100 := by
  show (UInt8.ofNat ((w.toNat : Int) % 256).toNat).toNat = w.toNat % 256
  rw [UInt8.toNat_ofNat']
  omega

theorem nn_eq_iff {w : UInt16} {b : UInt8} : (fields w.toNat).nn = b ↔ w.toNat % 0x100 = b.toNat := by
  rw [← UInt8.toNat_inj, toNat_nn]

theorem val_x (w : UInt16) : (fields w.toNat).x.val = w.toNat / 0x100 % 0x10 := by
  show ((w.toNat : Int) / 256 % 16).toNat = w.toNat / 256 % 16
  omega

theorem val_y (w : UInt16) : (fields w.toNat).y.val = w.toNat / 0x10 % 0x10 := by
  show ((w.toNat : Int) / 16 % 16).toNat = w.toNat / 16 % 16
  omega

theorem val_n (w : UInt16) : (fields w.toNat).n.val = w.toNat % 0x10 := by
  show ((w.toNat : Int) / 1 % 16).toNat = w.toNat % 16
  omega

theorem val_nnn (w : UInt16) : (fields w.toNat).nnn.val = w.toNat % 0x1000 := by
  show ((w.toNat : Int) % 4096).toNat = w.toNat % 4096
  omega

def IsCall (w : UInt16) : Prop :=
  w.toNat / 0x1000 = 2

-- The word is a return: 0nEE, whatever n is.
def IsReturn (w : UInt16) : Prop :=
  w.toNat / 0x1000 = 0 ∧ w.toNat % 0x100 = 0xEE

instance (w : UInt16) : Decidable (IsCall w) :=
  inferInstanceAs (Decidable (_ = _))

instance (w : UInt16) : Decidable (IsReturn w) :=
  inferInstanceAs (Decidable (_ ∧ _))

theorem IsReturn.not_isCall {w : UInt16} (h : IsReturn w) : ¬IsCall w := by
  intro (isCall : w.toNat / 0x1000 = 2)
  have := h.left
  omega

end Word

namespace Fields

def Is (f : Fields) (family : Nat) (low : UInt8) : Prop :=
  f.family.val = family ∧ f.nn = low

instance (f : Fields) (family : Nat) (low : UInt8) : Decidable (f.Is family low) :=
  inferInstanceAs (Decidable (_ ∧ _))

end Fields

def Operation.digit : Operation → Nat
  | copy         => 0x0
  | or           => 0x1
  | and          => 0x2
  | xor          => 0x3
  | add          => 0x4
  | subtract     => 0x5
  | shiftRight   => 0x6
  | subtractFrom => 0x7
  | shiftLeft    => 0xE

def Fields.Spells (f : Fields) : Instruction → Prop
  | .clear             => f.Is 0x0 0xE0
  | .ret               => f.Is 0x0 0xEE
  | .jump a            => f.family.val = 0x1 ∧ f.nnn = a
  | .call a            => f.family.val = 0x2 ∧ f.nnn = a
  | .skip (.equals x b)   => f.family.val = 0x3 ∧ f.x = x ∧ f.nn = b
  | .skip (.differs x b)  => f.family.val = 0x4 ∧ f.x = x ∧ f.nn = b
  | .skip (.same x y)     => f.family.val = 0x5 ∧ f.x = x ∧ f.y = y
  | .set x b           => f.family.val = 0x6 ∧ f.x = x ∧ f.nn = b
  | .add x b           => f.family.val = 0x7 ∧ f.x = x ∧ f.nn = b
  | .combine op x y    => f.family.val = 0x8 ∧ f.n.val = op.digit ∧ f.x = x ∧ f.y = y
  | .skip (.distinct x y) => f.family.val = 0x9 ∧ f.x = x ∧ f.y = y
  | .setIndex a        => f.family.val = 0xA ∧ f.nnn = a
  | .jumpFrom a        => f.family.val = 0xB ∧ f.nnn = a
  | .random x b        => f.family.val = 0xC ∧ f.x = x ∧ f.nn = b
  | .draw x y n        => f.family.val = 0xD ∧ f.x = x ∧ f.y = y ∧ f.n = n
  | .skip (.keyDown x) => f.Is 0xE 0x9E ∧ f.x = x
  | .skip (.keyUp x)   => f.Is 0xE 0xA1 ∧ f.x = x
  | .readDelay x       => f.Is 0xF 0x07 ∧ f.x = x
  | .awaitKey x        => f.Is 0xF 0x0A ∧ f.x = x
  | .setDelay x        => f.Is 0xF 0x15 ∧ f.x = x
  | .setSound x        => f.Is 0xF 0x18 ∧ f.x = x
  | .addIndex x        => f.Is 0xF 0x1E ∧ f.x = x
  | .glyph x           => f.Is 0xF 0x29 ∧ f.x = x
  | .storeDecimal x    => f.Is 0xF 0x33 ∧ f.x = x
  | .store x           => f.Is 0xF 0x55 ∧ f.x = x
  | .load x            => f.Is 0xF 0x65 ∧ f.x = x

theorem Fields.spells_draw {f : Fields} (isDraw : f.family.val = 0xD) : f.Spells (.draw f.x f.y f.n) :=
  ⟨isDraw, rfl, rfl, rfl⟩

namespace Instruction

variable {f : Fields} {i : Instruction}

theorem spells_of_ofFields? (h : ofFields? f = some i) : f.Spells i := by
  simp only [ofFields?, ofSystem?, ofOperation?, ofKeys?, ofMisc?] at h
  repeat' split at h
  all_goals cases h
  all_goals simp [Fields.Spells, Fields.Is, Operation.digit, *]
  all_goals grind

theorem ofFields?_of_spells (h : f.Spells i) : ofFields? f = some i := by
  cases i
  case skip condition =>
    cases condition
    all_goals simp_all [Fields.Spells, Fields.Is, ofFields?, ofKeys?, ← Fin.eq_mk_iff_val_eq]
  case combine op x y =>
    cases op
    all_goals simp_all [Fields.Spells, ofFields?, ofOperation?, Operation.digit, ← Fin.eq_mk_iff_val_eq]
  all_goals simp_all [Fields.Spells, Fields.Is, ofFields?, ofSystem?, ofMisc?, ← Fin.eq_mk_iff_val_eq]

theorem eq_of_spells {j : Instruction} (h : f.Spells i) (h' : f.Spells j) : i = j :=
  Option.some.inj ((ofFields?_of_spells h).symm.trans (ofFields?_of_spells h'))

theorem exists_call_iff {w : UInt16} : (∃ target, ofWord? w.toNat = some (.call target)) ↔ Word.IsCall w := by
  rw [Word.IsCall, ← Word.val_family]
  constructor
  case mp =>
    rintro ⟨_, decode⟩
    exact (spells_of_ofFields? decode).left
  case mpr =>
    intro family
    exact ⟨_, ofFields?_of_spells (show (Word.fields w.toNat).Spells (.call _) from ⟨family, rfl⟩)⟩

theorem ofWord?_eq_ret_iff {w : UInt16} : ofWord? w.toNat = some .ret ↔ Word.IsReturn w := by
  have low : (Word.fields w.toNat).nn = 0xEE ↔ w.toNat % 0x100 = 0xEE := Word.nn_eq_iff
  rw [Word.IsReturn, ← Word.val_family, ← low]
  exact ⟨spells_of_ofFields?, fun spells => ofFields?_of_spells spells⟩

end Instruction
end Chip8
