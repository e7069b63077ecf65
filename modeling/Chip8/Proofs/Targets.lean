import Mathlib.Data.Finset.Dedup
import Mathlib.Data.Finset.Prod
import Mathlib.Data.Finset.Card
import Mathlib.Data.Int.ModEq
import Chip8.Machine.Execution
import Chip8.Proofs.Drawing

namespace Chip8

-- The pixel on which a bit at `(x, y)` falls, where `(x, y)` can lie past the right and the bottom edge.
def EdgeRule.target? (rule : EdgeRule) (d : Display) (x y : Int) : Option (Int × Int) :=
  if d.Has x y then
    some (x, y)
  else
    match rule with
    | .clip => none
    | .wrap => some (x % d.width, y % d.height)

def Memory.spriteBits (m : Memory) (start : Int) (height : Nat) : Finset (Nat × Nat) :=
  (Finset.range 8 ×ˢ Finset.range height).filter fun b => (m.byteAt (start + b.2)).toNat.testBit (7 - b.1)

namespace EdgeRule

variable {rule : EdgeRule} {size k : Int}

def placed? (rule : EdgeRule) (size k : Int) : Option Int :=
  if k < size then
    some k
  else
    match rule with
    | .clip => none
    | .wrap => some (k % size)

theorem place_eq_placed? (hs : rule = .wrap → 1 ≤ size) : rule.place size k = .ok (rule.placed? size k) := by
  simp only [place, placed?]
  split
  case isTrue => rfl
  case isFalse =>
    cases rule with
    | clip => rfl
    | wrap =>
      have positive : 1 ≤ size := hs rfl
      simp only [Int.fmod_eq_emod_of_nonneg k (show 0 ≤ size by omega)]
      rw [if_neg (by omega)]

theorem target?_congr {d d' : Display} (width : d'.width = d.width) (height : d'.height = d.height) (x y : Int) :
    rule.target? d' x y = rule.target? d x y := by
  have has : d'.Has x y ↔ d.Has x y := ⟨fun h => h.resized width.symm height.symm, fun h => h.resized width height⟩
  simp only [target?, has, width, height]

theorem target?_eq {d : Display} {x y : Int} (hx : 0 ≤ x) (hy : 0 ≤ y) :
    rule.target? d x y =
      (rule.placed? d.height y).bind fun y' => (rule.placed? d.width x).map fun x' => (x', y') := by
  by_cases column : x < d.width <;> by_cases row : y < d.height <;> cases rule
  all_goals simp [target?, placed?, Display.Has, hx, hy, column, row, Int.emod_eq_of_lt]

theorem of_target? {d : Display} {x y : Int} {p : Int × Int} (fits : rule.Fits d) (hx : 0 ≤ x) (hy : 0 ≤ y)
    (target : rule.target? d x y = some p) : d.Has p.1 p.2 ∧ p.1 = x % d.width ∧ p.2 = y % d.height := by
  simp only [target?] at target
  split at target
  case isTrue inside =>
    cases target
    exact ⟨inside, (Int.emod_eq_of_lt hx inside.left.right).symm, (Int.emod_eq_of_lt hy inside.right.right).symm⟩
  case isFalse =>
    cases rule with
    | clip => cases target
    | wrap =>
      cases target
      have ⟨wide, tall⟩ := fits rfl
      have column : 0 ≤ x % d.width ∧ x % d.width < d.width :=
        ⟨Int.emod_nonneg x (by omega), Int.emod_lt_of_pos x (by omega)⟩
      have row : 0 ≤ y % d.height ∧ y % d.height < d.height :=
        ⟨Int.emod_nonneg y (by omega), Int.emod_lt_of_pos y (by omega)⟩
      exact ⟨⟨column, row⟩, rfl, rfl⟩

end EdgeRule

namespace Sprite

variable {rule : EdgeRule} {width : Int} {d : Display}

def bitsFrom (r : Nat) : List UInt8 → List (Nat × Nat)
  | []           => []
  | row :: below => (columns row).map (·, r) ++ bitsFrom (r + 1) below

theorem rowTargets_eq (hw : rule = .wrap → 1 ≤ width) (x y : Int) (cs : List Nat) :
    rowTargets rule width x y cs =
      .ok (cs.filterMap fun (c : Nat) => (rule.placed? width (x + c)).map (·, y)) := by
  induction cs with
  | nil => rfl
  | cons c rest ih =>
    rw [rowTargets, EdgeRule.place_eq_placed? hw, ih]
    cases placed : rule.placed? width (x + c) <;> simp [placed] <;> rfl

theorem filterMap_row {x y : Int} (hx : 0 ≤ x) (hy : 0 ≤ y) (r : Nat) (cs : List Nat) :
    (cs.map (·, r)).filterMap (fun b => rule.target? d (x + b.1) (y + b.2)) =
      (rule.placed? d.height (y + r)).elim [] fun y' =>
        cs.filterMap fun (c : Nat) => (rule.placed? d.width (x + c)).map (·, y') := by
  have target (c : Nat) : rule.target? d (x + c) (y + r) = _ :=
    EdgeRule.target?_eq (show 0 ≤ x + c by omega) (show 0 ≤ y + r by omega)
  rw [List.filterMap_map]
  cases placed : rule.placed? d.height (y + r) <;> simp [target, placed]

theorem targets_add_eq (fits : rule.Fits d) {x y : Int} (hx : 0 ≤ x) (hy : 0 ≤ y) (r : Nat) (rows : List UInt8) :
    targets rule d.width d.height x (y + r) rows =
      .ok ((bitsFrom r rows).filterMap fun b => rule.target? d (x + b.1) (y + b.2)) := by
  induction rows generalizing r with
  | nil => rfl
  | cons row below ih =>
    have next : y + r + 1 = y + (r + 1 : Nat) := by omega
    rw [targets, EdgeRule.place_eq_placed? fun h => (fits h).right, next, ih, bitsFrom, List.filterMap_append,
      filterMap_row hx hy]
    cases placed : rule.placed? d.height (y + r) with
    | none => rfl
    | some y' =>
      change (rowTargets rule d.width x y' (columns row) >>= fun here => pure (here ++ _)) = _
      rw [rowTargets_eq fun h => (fits h).left]
      rfl

theorem targets_eq (fits : rule.Fits d) {x y : Int} (hx : 0 ≤ x) (hy : 0 ≤ y) (rows : List UInt8) :
    targets rule d.width d.height x y rows =
      .ok ((bitsFrom 0 rows).filterMap fun b => rule.target? d (x + b.1) (y + b.2)) := by
  have first : y + (0 : Nat) = y := Int.add_zero y
  rw [← targets_add_eq fits hx hy 0 rows, first]

theorem mem_columns {row : UInt8} {c : Nat} : c ∈ columns row ↔ c < 8 ∧ row.toNat.testBit (7 - c) := by
  simp [columns]

theorem le_of_mem_bitsFrom {r : Nat} {rows : List UInt8} {b : Nat × Nat} (mem : b ∈ bitsFrom r rows) : r ≤ b.2 := by
  induction rows generalizing r with
  | nil => cases mem
  | cons row below ih =>
    rcases List.mem_append.mp mem with here | later
    · obtain ⟨c, _, rfl⟩ := List.mem_map.mp here
      exact Nat.le_refl r
    · exact Nat.le_of_succ_le (ih later)

theorem mem_bitsFrom {r k c : Nat} {rows : List UInt8} :
    (c, r + k) ∈ bitsFrom r rows ↔ ∃ row, rows[k]? = some row ∧ c ∈ columns row := by
  induction rows generalizing r k with
  | nil => simp [bitsFrom]
  | cons row below ih =>
    rw [bitsFrom, List.mem_append]
    cases k with
    | zero =>
      have below : (c, r) ∉ bitsFrom (r + 1) below := fun later => Nat.not_succ_le_self r (le_of_mem_bitsFrom later)
      simp [below]
    | succ k =>
      have above : r ≠ r + 1 + k := by omega
      rw [show r + (k + 1) = r + 1 + k by omega, ih]
      simp [above]

theorem nodup_bitsFrom (r : Nat) (rows : List UInt8) : (bitsFrom r rows).Nodup := by
  induction rows generalizing r with
  | nil => exact List.nodup_nil
  | cons row below ih =>
    refine List.Nodup.append ?_ (ih (r + 1)) ?_
    · refine List.Nodup.map (fun c c' same => congrArg Prod.fst same) ?_
      exact List.nodup_range.filter _
    · intro b here later
      obtain ⟨c, _, rfl⟩ := List.mem_map.mp here
      exact Nat.not_succ_le_self r (le_of_mem_bitsFrom later)

variable {m : Memory} {start : Int} {height : Nat} {rows : List UInt8}

theorem mem_bitsFrom_iff (read : m.readBlock start height = .ok rows) {b : Nat × Nat} :
    b ∈ bitsFrom 0 rows ↔ b ∈ m.spriteBits start height := by
  obtain ⟨c, r⟩ := b
  have bit : (c, 0 + r) ∈ bitsFrom 0 rows ↔ _ := mem_bitsFrom
  rw [Nat.zero_add] at bit
  rw [bit, Memory.eq_of_readBlock read]
  by_cases inside : r < height
  · simp [Memory.spriteBits, mem_columns, inside]
  · simp [Memory.spriteBits, inside]

def hits (rule : EdgeRule) (d : Display) (x y : Int) (bits : Finset (Nat × Nat)) (p : Int × Int) : Nat :=
  (bits.filter fun b => rule.target? d (x + b.1) (y + b.2) = some p).card

theorem count_targets (read : m.readBlock start height = .ok rows) (x y : Int) (p : Int × Int) :
    ((bitsFrom 0 rows).filterMap fun b => rule.target? d (x + b.1) (y + b.2)).count p =
      hits rule d x y (m.spriteBits start height) p := by
  have hit : (m.spriteBits start height).filter (fun b => rule.target? d (x + b.1) (y + b.2) = some p) =
      ((bitsFrom 0 rows).filter fun b => rule.target? d (x + b.1) (y + b.2) == some p).toFinset := by
    ext b
    simp [mem_bitsFrom_iff read]
  rw [hits, hit, List.toFinset_card_of_nodup ((nodup_bitsFrom 0 rows).filter _), ← List.countP_eq_length_filter,
    List.count, List.countP_filterMap]
  refine List.countP_congr fun b _ => ?_
  cases rule.target? d (x + b.1) (y + b.2) <;> simp

-- On a display that is at least as large as the sprite, no pixel is hit twice.
theorem hits_le_one (fits : rule.Fits d) (wide : 8 ≤ d.width) (tall : height ≤ d.height) {x y : Int} (hx : 0 ≤ x)
    (hy : 0 ≤ y) (p : Int × Int) : hits rule d x y (m.spriteBits start height) p ≤ 1 := by
  have apart {size z : Int} {k k' : Nat} (same : (z + k) % size = (z + k') % size) (less : k < size)
      (less' : k' < size) : k = k' := by
    have shifted : (k : Int) % size = k' % size := Int.ModEq.add_left_cancel' z same
    rw [Int.emod_eq_of_lt (by omega) less, Int.emod_eq_of_lt (by omega) less'] at shifted
    exact Int.ofNat.inj shifted
  refine Finset.card_le_one.mpr fun b mem b' mem' => ?_
  simp only [Finset.mem_filter, Memory.spriteBits, Finset.mem_product, Finset.mem_range] at mem mem'
  obtain ⟨⟨⟨column, row⟩, _⟩, target⟩ := mem
  obtain ⟨⟨⟨column', row'⟩, _⟩, target'⟩ := mem'
  obtain ⟨_, hx₁, hy₁⟩ := EdgeRule.of_target? fits (by omega) (by omega) target
  obtain ⟨_, hx₂, hy₂⟩ := EdgeRule.of_target? fits (by omega) (by omega) target'
  exact Prod.ext (apart (hx₁.symm.trans hx₂) (by omega) (by omega)) (apart (hy₁.symm.trans hy₂) (by omega) (by omega))

end Sprite

namespace Machine

def spriteBits (m : Machine) (f : Fields) : Finset (Nat × Nat) :=
  m.memory.spriteBits m.index f.n.val

def spriteTarget? (m : Machine) (f : Fields) (b : Nat × Nat) : Option (Int × Int) :=
  m.edge.target? m.display ((m.v.get f.x).toNat + b.1) ((m.v.get f.y).toNat + b.2)

def hits (m : Machine) (f : Fields) (p : Int × Int) : Nat :=
  ((m.spriteBits f).filter fun b => m.spriteTarget? f b = some p).card

end Machine
end Chip8
