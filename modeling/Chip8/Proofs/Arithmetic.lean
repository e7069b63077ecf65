import Chip8.Proofs.Run
import Chip8.Proofs.Words

namespace Chip8

namespace Operation

def outcome? (a b : Int) : Operation → Option Int
  | add          => some (a + b)
  | subtract     => some (a - b)
  | shiftRight   => some (a / 2)
  | subtractFrom => some (b - a)
  | shiftLeft    => some (2 * a)
  | copy | or | and | xor => none

-- The equation by which the result `r` and the flag `c` of an arithmetic operation make up for its operands.
def Balances (a b r c : Int) : Operation → Prop
  | add          => 256 * c + r = a + b
  | subtract     => r = a - b + 256 * (1 - c)
  | shiftRight   => 2 * r + c = a
  | subtractFrom => r = b - a + 256 * (1 - c)
  | shiftLeft    => 256 * c + r = 2 * a
  | copy | or | and | xor => False

variable {op : Operation} {a b : UInt8} {e : Int}

theorem toNat_result (outcome : op.outcome? a.toNat b.toNat = some e) : ((op.result a b).toNat : Int) = e % 256 := by
  have := a.toNat_lt
  have := b.toNat_lt
  cases op <;> cases outcome
  case add =>
    rw [result, UInt8.toNat_add]
    omega
  case subtract | subtractFrom =>
    rw [result, UInt8.toNat_sub]
    omega
  case shiftRight =>
    rw [result, UInt8.toNat_shiftRight, Nat.shiftRight_eq_div_pow]
    simp
    omega
  case shiftLeft =>
    rw [result, UInt8.toNat_shiftLeft, Nat.shiftLeft_eq]
    simp
    omega

theorem exists_carry (outcome : op.outcome? a.toNat b.toNat = some e) :
    ∃ c, op.carry? a b = some c ∧ op.Balances a.toNat b.toNat (op.result a b).toNat c.toNat := by
  have result := toNat_result outcome
  have := a.toNat_lt
  have := b.toNat_lt
  cases op <;> cases outcome <;> refine ⟨_, rfl, ?_⟩ <;> simp only [Balances, result]
  case add =>
    by_cases large : 255 < a.toNat + b.toNat
    all_goals
      simp only [large, decide_true, decide_false, Bool.toNat_true, Bool.toNat_false]
      omega
  case subtract =>
    by_cases whole : b ≤ a
    all_goals
      simp only [whole, decide_true, decide_false, Bool.toNat_true, Bool.toNat_false]
      rw [UInt8.le_iff_toNat_le] at whole
      omega
  case subtractFrom =>
    by_cases whole : a ≤ b
    all_goals
      simp only [whole, decide_true, decide_false, Bool.toNat_true, Bool.toNat_false]
      rw [UInt8.le_iff_toNat_le] at whole
      omega
  case shiftRight | shiftLeft =>
    rw [Nat.toNat_testBit]
    omega

end Operation

theorem toNat_toUInt8 (c : Bool) : c.toUInt8.toNat = c.toNat := by
  cases c <;> rfl

namespace Machine

variable {m : Machine} {op : Operation} {x y : Register}

theorem get_combine (m : Machine) (op : Operation) (x y : Register) :
    (m.combine op x y).v.get x = op.result (m.v.get x) (m.v.get y) := by
  unfold combine
  dsimp only
  split <;> exact get_setV _ _ _

theorem get_combine_flag {c : Bool} (carry : op.carry? (m.v.get x) (m.v.get y) = some c) (other : x ≠ flag) :
    (m.combine op x y).v.get flag = c.toUInt8 := by
  have combined : m.combine op x y = (m.setV flag c.toUInt8).setV x (op.result (m.v.get x) (m.v.get y)) := by
    unfold combine
    dsimp only
    split
    case h_1 carry' =>
      cases carry.symm.trans carry'
      rfl
    case h_2 none => cases carry.symm.trans none
  rw [combined, get_setV_of_ne _ other.symm, get_setV]

-- The operands are those from before the flag is written, and so are those of the equations. A register that an
-- arithmetic operation leaves its result in ends with the exact outcome cut to a byte, the flag register included.
-- If it is another register, the flag tells what was cut off. The sum of the index register and a register is exact
-- up to the size of the index register, with a flag that tells whether it lies past the end of memory. The sum with a
-- constant is cut to a byte without a flag.
theorem arithmetic_loses_nothing (m : Machine) (word : Int) :
    let f := Word.fields word
    let a := (m.v.get f.x).toNat
    let b := (m.v.get f.y).toNat
    (∀ (op : Operation) e, f.family.val = 0x8 → f.n.val = op.digit → op.outcome? a b = some e →
      ∃ m', m.execute word = .done m' ∧
        let r := (m'.v.get f.x).toNat
        let c := (m'.v.get flag).toNat
        r = e % 256 ∧ (f.x ≠ flag → c ≤ 1 ∧ r ≤ 255 ∧ op.Balances a b r c)) ∧
    (f.Is 0xF 0x1E →
      ∃ m', m.execute word = .done m' ∧ m'.index = (m.index + a) % 0x10000 ∧
        m'.v.get flag = if 0xFFF < m.index + a then 1 else 0) ∧
    (f.family.val = 0x7 →
      ∃ m', m.execute word = .done m' ∧ (m'.v.get f.x).toNat = (a + f.nn.toNat) % 256 ∧
        (f.x ≠ flag → m'.v.get flag = m.v.get flag)) := by
  intro f a b
  refine ⟨fun op e family digit outcome => ?combine, fun isAdd => ?index, fun family => ?constant⟩
  case combine =>
    refine ⟨_, execute_of_spells (i := .combine op f.x f.y) ⟨family, digit, rfl, rfl⟩, ?_⟩
    have result := (m.advance word).get_combine op f.x f.y
    obtain ⟨c, carry, balances⟩ := Operation.exists_carry outcome
    refine ⟨(congrArg (fun r : UInt8 => (r.toNat : Int)) result).trans (Operation.toNat_result outcome), fun other => ?_⟩
    have flagged := get_combine_flag (m := m.advance word) carry other
    rw [result, flagged, toNat_toUInt8]
    exact ⟨c.toNat_le, Nat.le_of_lt_succ (UInt8.toNat_lt _), balances⟩
  case index =>
    refine ⟨_, execute_of_spells (i := .addIndex f.x) ⟨isAdd, rfl⟩, rfl, ?_⟩
    refine (get_setV (m.advance word) flag _).trans ?_
    show (decide (0xFFF < m.index + a)).toUInt8 = _
    split
    case isTrue past => rw [decide_eq_true past]; rfl
    case isFalse inside => rw [decide_eq_false inside]; rfl
  case constant =>
    refine ⟨_, execute_of_spells (i := .add f.x f.nn) ⟨family, rfl, rfl⟩, ?_, fun other => ?_⟩
    · refine (congrArg UInt8.toNat (get_setV (m.advance word) f.x _)).trans ?_
      exact UInt8.toNat_add (m.v.get f.x) f.nn
    · exact get_setV_of_ne (m.advance word) other.symm _

theorem flag_register_is_subtracted :
    let m := (holding [0x61, 0x05, 0x6F, 0x07]).after [.step, .step]
    m.v[1]? = some 5 ∧ m.v.get flag = 7 ∧
      ∃ m', m.execute 0x81F5 = .done m' ∧ (m'.v.get (Word.fields 0x81F5).x).toNat = 254 ∧ m'.v.get flag = 0 := by
  intro m
  obtain ⟨first, operand, second⟩ :
      m.v[1]? = some 5 ∧ (m.v.get (Word.fields 0x81F5).x).toNat = 5 ∧ m.v.get flag = 7 := by
    decide +kernel
  have subtrahend : (m.v.get (Word.fields 0x81F5).y).toNat = 7 := congrArg UInt8.toNat second
  obtain ⟨m', done, _, flagged⟩ :=
    (arithmetic_loses_nothing m 0x81F5).left .subtract _ (by decide) (by decide) rfl
  obtain ⟨_, _, balances⟩ := flagged (by decide)
  simp only [Operation.Balances, operand, subtrahend] at balances
  refine ⟨first, second, m', done, by omega, UInt8.toNat_inj.mp ?_⟩
  show (m'.v.get flag).toNat = 0
  omega

end Machine
end Chip8
