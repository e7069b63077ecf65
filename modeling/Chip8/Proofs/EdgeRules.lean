import Chip8.Proofs.Range
import Chip8.Proofs.Refit
import Chip8.Proofs.Xor

namespace Chip8

theorem EdgeRule.target?_of_has {rule : EdgeRule} {d : Display} {x y : Int} (has : d.Has x y) :
    rule.target? d x y = some (x, y) :=
  if_pos has

theorem Sprite.draw_eq_of_inside {rule rule' : EdgeRule} {d : Display} {x y : Int} {rows : List UInt8}
    (fits : rule.Fits d) (fits' : rule'.Fits d) (hx : 0 ≤ x) (hy : 0 ≤ y)
    (inside : ∀ b ∈ bitsFrom 0 rows, d.Has (x + b.1) (y + b.2)) : draw rule' d x y rows = draw rule d x y rows := by
  have same : (bitsFrom 0 rows).filterMap (fun b => rule'.target? d (x + b.1) (y + b.2)) =
      (bitsFrom 0 rows).filterMap fun b => rule.target? d (x + b.1) (y + b.2) := by
    refine List.filterMap_congr fun b mem => ?_
    rw [EdgeRule.target?_of_has (inside b mem), EdgeRule.target?_of_has (inside b mem)]
  rw [draw, draw, targets_eq fits hx hy, targets_eq fits' hx hy, same]

def Refit.wrapping : Refit where
  edge _ := .wrap

namespace Machine

variable {m : Machine}

def DrawsInside (m : Machine) : Prop :=
  ∀ w, m.executed? = some w → w.toNat / 0x1000 = 0xD → ∀ b ∈ m.spriteBits (Word.fields w.toNat),
    (m.v.get (Word.fields w.toNat).x).toNat + b.1 < m.display.width ∧
      (m.v.get (Word.fields w.toNat).y).toNat + b.2 < m.display.height

theorem refit_wrapping : m.refit .wrapping = { m with edge := .wrap } := by
  simp [refit, Refit.wrapping]

theorem DrawsInside.keepsCourse (inside : m.DrawsInside) (sp : 0 ≤ m.sp ∧ m.sp ≤ m.stack.size)
    (size : 1 ≤ m.display.width ∧ 1 ≤ m.display.height) : m.KeepsCourse .wrapping := by
  intro w i fetch decode looks
  cases i
  case ret => exact ret_refit (m := m.advance w.toNat) sp
  case call target => exact call_refit (m := m.advance w.toNat) sp.left (.inl rfl) target
  case draw x y height =>
    obtain ⟨family, rfl, rfl, rfl⟩ := Instruction.spells_of_ofFields? decode
    refine drawSprite_refit fun rows read => ?_
    obtain ⟨_, _, done⟩ := m.exists_drawn family (fun _ => size) (Memory.blockFault?_of_readBlock read)
    have executed : m.executed? = some w :=
      executed?_eq_some_iff.mpr ⟨fetch, _, congrArg Turn.result (step_of_done fetch done), rfl⟩
    refine Sprite.draw_eq_of_inside (fun _ => size) (fun _ => size) (Int.natCast_nonneg _) (Int.natCast_nonneg _)
      fun b mem => ?_
    obtain ⟨right, bottom⟩ := inside w executed ((Word.val_family w).symm.trans family) b
      ((Sprite.mem_bitsFrom_iff read).mp mem)
    exact ⟨⟨Int.natCast_nonneg _, right⟩, Int.natCast_nonneg _, bottom⟩
  all_goals cases looks

-- Machines that clip and that wrap around run alike for as long as no set bit is drawn past an edge: whatever they are
-- asked for, their cycles report the same, and they stay the same apart from the rule.
theorem edge_rules_agree_inside (display : Display) (stackSize : Nat) (random : RandomSource) (speaker : Option Nat)
    (size : 1 ≤ display.width ∧ 1 ≤ display.height) {requests : List Request}
    (inside : ∀ s ∈ (powerOn display .clip stackSize random speaker).starts requests, s.DrawsInside) :
    let clipped := powerOn display .clip stackSize random speaker
    let wrapped := powerOn display .wrap stackSize random speaker
    (∀ past, past <+: requests → wrapped.after past = { clipped.after past with edge := .wrap }) ∧
      wrapped.results requests = clipped.results requests ∧
      ∀ result ∈ clipped.results requests, ∃ c, result = .ok c := by
  intro clipped wrapped
  have alive : clipped.Alive :=
    ⟨powerOn_inRange display .clip stackSize random speaker, fun wraps => by cases wraps⟩
  have courses : ∀ s ∈ clipped.starts requests, s.KeepsCourse .wrapping := by
    intro s mem
    have same := clipped.starts_preserves_make mem
    exact (inside s mem).keepsCourse (alive.starts s mem).range.sp ⟨same.width ▸ size.left, same.height ▸ size.right⟩
  have begins : wrapped = clipped.refit .wrapping := (refit_wrapping (m := clipped)).symm
  rw [begins]
  refine ⟨fun past start => ?after, results_refit courses, fun result mem => ?reported⟩
  case after => rw [after_refit courses start, refit_wrapping]
  case reported =>
    obtain ⟨s, start, rfl⟩ := List.mem_map.mp mem
    exact (alive.starts s start).exists_cycle

def pixel : Display where
  width := 1
  height := 1
  pixels := #[false]
  size_eq := rfl

def pixelRun : List Request :=
  [.write 0 0x80, .write 1 0, .load [0xD0, 0x02], .step, .press 3]

theorem blank_edges_make_no_difference :
    let clipped := powerOn pixel .clip 16 (.cycle #[]) none
    let wrapped := powerOn pixel .wrap 16 (.cycle #[]) none
    (1 ≤ pixel.width ∧ 1 ≤ pixel.height) ∧ (∀ s ∈ clipped.starts pixelRun, s.DrawsInside) ∧
      (clipped.after pixelRun).display.get 0 0 = .ok true ∧
      wrapped.after pixelRun = { clipped.after pixelRun with edge := .wrap } ∧
      wrapped.results pixelRun = clipped.results pixelRun := by
  intro clipped wrapped
  have size : 1 ≤ pixel.width ∧ 1 ≤ pixel.height := by decide
  let drawing := clipped.after (pixelRun.take 3)
  have executed : drawing.executed? = some 0xD002 := by decide +kernel
  have bits : ∀ b ∈ drawing.spriteBits (Word.fields 0xD002), b = (0, 0) := by decide +kernel
  have inside : ∀ s ∈ clipped.starts pixelRun, s.DrawsInside := by
    intro s mem w executed' _ b bit
    obtain rfl : s = drawing := List.mem_singleton.mp mem
    obtain rfl : w = 0xD002 := Option.some.inj (executed'.symm.trans executed)
    rw [bits b bit]
    decide +kernel
  obtain ⟨after, results, _⟩ := edge_rules_agree_inside pixel 16 (.cycle #[]) none size inside
  exact ⟨size, inside, by decide +kernel, after _ (List.prefix_refl _), results⟩

end Machine
end Chip8
