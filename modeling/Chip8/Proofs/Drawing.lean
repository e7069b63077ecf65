import Chip8.Sprite

namespace Chip8
namespace Display

variable {d d' : Display}

theorem Has.resized {x y : Int} (h : d.Has x y) (hw : d'.width = d.width) (hh : d'.height = d.height) :
    d'.Has x y := by
  simp only [Has]
  rw [hw, hh]
  exact h

theorem pixels_size_eq (width : d'.width = d.width) (height : d'.height = d.height) :
    d'.pixels.size = d.pixels.size := by
  have same : (d'.pixels.size : Int) = d.pixels.size := by rw [d'.size_eq, d.size_eq, width, height]
  exact Int.ofNat.inj same

theorem flip_preserves_size {x y : Int} {wasOn : Bool} (h : d.flip x y = .ok (wasOn, d')) :
    d'.width = d.width ∧ d'.height = d.height := by
  simp only [flip] at h
  split at h <;> cases h
  exact ⟨rfl, rfl⟩

theorem exists_flip {x y : Int} (h : d.Has x y) : ∃ wasOn d', d.flip x y = .ok (wasOn, d') :=
  ⟨_, _, dif_pos h⟩

theorem flipAll_cons {x y : Int} {rest : List (Int × Int)} {wasOn : Bool} (h : d.flip x y = .ok (wasOn, d')) :
    d.flipAll ((x, y) :: rest) = (d'.flipAll rest).map fun r => (wasOn || r.1, r.2) := by
  rw [flipAll, h]
  change (d'.flipAll rest >>= fun r => pure (wasOn || r.1, r.2)) = _
  cases d'.flipAll rest <;> rfl

theorem exists_of_flipAll_cons {p : Int × Int} {rest : List (Int × Int)} {hit : Bool}
    (h : d.flipAll (p :: rest) = .ok (hit, d')) :
    ∃ wasOn d₁ later, d.flip p.1 p.2 = .ok (wasOn, d₁) ∧ d₁.flipAll rest = .ok (later, d') ∧
      hit = (wasOn || later) := by
  cases flipped : d.flip p.1 p.2 with
  | error e =>
    rw [flipAll, flipped] at h
    cases h
  | ok r =>
    rw [flipAll_cons flipped] at h
    cases more : r.2.flipAll rest with
    | error e =>
      rw [more] at h
      cases h
    | ok r' =>
      rw [more] at h
      cases h
      exact ⟨_, _, _, rfl, more, rfl⟩

theorem flipAll_preserves_size {points : List (Int × Int)} {hit : Bool} {d₁ : Display}
    (h : d₁.flipAll points = .ok (hit, d')) : d'.width = d₁.width ∧ d'.height = d₁.height := by
  induction points generalizing d₁ hit with
  | nil =>
    cases h
    exact ⟨rfl, rfl⟩
  | cons p rest ih =>
    have ⟨_, _, _, first, more, _⟩ := exists_of_flipAll_cons h
    have hs := flip_preserves_size first
    have ht := ih more
    exact ⟨ht.left.trans hs.left, ht.right.trans hs.right⟩

theorem exists_flipAll {points : List (Int × Int)} (h : ∀ p ∈ points, d.Has p.1 p.2) :
    ∃ hit d', d.flipAll points = .ok (hit, d') := by
  induction points generalizing d with
  | nil => exact ⟨_, _, rfl⟩
  | cons p rest ih =>
    have ⟨wasOn, d₁, hf⟩ := exists_flip (h p List.mem_cons_self)
    have ⟨hw, hh⟩ := flip_preserves_size hf
    have ⟨hit, d₂, hr⟩ := ih fun q hq => (h q (List.mem_cons_of_mem _ hq)).resized hw hh
    exact ⟨_, _, by rw [flipAll_cons hf, hr]; rfl⟩

end Display

-- The rule finds a place on the display for every column from the left edge on and every row from the
-- top edge on, or leaves it out. Only around edges with pixels can something be wrapped.
def EdgeRule.Fits (rule : EdgeRule) (d : Display) : Prop :=
  rule = .wrap → 1 ≤ d.width ∧ 1 ≤ d.height

theorem EdgeRule.exists_place {rule : EdgeRule} {size coordinate : Int} (hs : rule = .wrap → 1 ≤ size)
    (hc : 0 ≤ coordinate) :
    ∃ placed, rule.place size coordinate = .ok placed ∧ ∀ k ∈ placed, 0 ≤ k ∧ k < size := by
  simp only [place]
  split
  case isTrue inside => exact ⟨_, rfl, fun k hk => by cases hk; exact ⟨hc, inside⟩⟩
  case isFalse =>
    cases rule with
    | clip => exact ⟨none, rfl, fun _ hk => nomatch hk⟩
    | wrap =>
      have pos : 0 < size := hs rfl
      refine ⟨some (coordinate.fmod size), if_neg (by omega), fun k hk => ?_⟩
      cases hk
      exact ⟨Int.fmod_nonneg_of_pos _ pos, Int.fmod_lt_of_pos _ pos⟩

namespace Sprite

variable {rule : EdgeRule} {width height : Int}

theorem exists_rowTargets (hw : rule = .wrap → 1 ≤ width) {x : Int} (hx : 0 ≤ x) (y : Int) (cs : List Nat) :
    ∃ points, rowTargets rule width x y cs = .ok points ∧
      ∀ p ∈ points, (0 ≤ p.1 ∧ p.1 < width) ∧ p.2 = y := by
  induction cs with
  | nil => exact ⟨[], rfl, fun _ hp => nomatch hp⟩
  | cons c rest ih =>
    have ⟨placed, hplace, hk⟩ := EdgeRule.exists_place hw (show 0 ≤ x + c by omega)
    have ⟨points, hrest, hp⟩ := ih
    refine ⟨placed.toList.map (·, y) ++ points, by rw [rowTargets, hplace, hrest]; rfl, fun p h => ?_⟩
    rcases List.mem_append.mp h with here | later
    · obtain ⟨k, hmem, rfl⟩ := List.mem_map.mp here
      exact ⟨hk k (Option.mem_toList.mp hmem), rfl⟩
    · exact hp p later

theorem exists_targets (hw : rule = .wrap → 1 ≤ width) (hh : rule = .wrap → 1 ≤ height) {x y : Int}
    (hx : 0 ≤ x) (hy : 0 ≤ y) (rows : List UInt8) :
    ∃ points, targets rule width height x y rows = .ok points ∧
      ∀ p ∈ points, (0 ≤ p.1 ∧ p.1 < width) ∧ (0 ≤ p.2 ∧ p.2 < height) := by
  induction rows generalizing y with
  | nil => exact ⟨[], rfl, fun _ hp => nomatch hp⟩
  | cons row below ih =>
    have ⟨placed, hplace, hk⟩ := EdgeRule.exists_place hh hy
    have ⟨rest, hrest, hr⟩ := ih (show 0 ≤ y + 1 by omega)
    cases placed with
    | none => exact ⟨[] ++ rest, by rw [targets, hplace, hrest]; rfl, hr⟩
    | some y' =>
      have ⟨here, hhere, hp⟩ := exists_rowTargets hw hx y' (columns row)
      refine ⟨here ++ rest, ?_, fun p h => ?_⟩
      · rw [targets, hplace, hrest]
        change (rowTargets rule width x y' (columns row) >>= fun here => pure (here ++ rest)) = _
        rw [hhere]
        rfl
      · rcases List.mem_append.mp h with inRow | later
        · have ⟨hx', hy'⟩ := hp p inRow
          exact ⟨hx', hy' ▸ hk y' rfl⟩
        · exact hr p later

theorem draw_eq {d : Display} {x y : Int} {rows : List UInt8} {points : List (Int × Int)}
    (h : targets rule d.width d.height x y rows = .ok points) :
    draw rule d x y rows =
      (d.flipAll points).map fun r => { display := r.2, collision := r.1, touched := !points.isEmpty } := by
  rw [draw, h]
  change (d.flipAll points >>= fun r => pure _) = _
  cases d.flipAll points <;> rfl

theorem exists_draw {d : Display} (fits : rule.Fits d) {x y : Int} (hx : 0 ≤ x) (hy : 0 ≤ y)
    (rows : List UInt8) : ∃ drawing, draw rule d x y rows = .ok drawing := by
  have ⟨points, htargets, hp⟩ :=
    exists_targets (fun h => (fits h).left) (fun h => (fits h).right) hx hy rows
  have ⟨hit, d', hflip⟩ := Display.exists_flipAll (d := d) hp
  exact ⟨_, by rw [draw_eq htargets, hflip]; rfl⟩

theorem draw_eq_ok {d : Display} {x y : Int} {rows : List UInt8} {drawing : Drawing}
    (h : draw rule d x y rows = .ok drawing) :
    ∃ points, targets rule d.width d.height x y rows = .ok points ∧
      d.flipAll points = .ok (drawing.collision, drawing.display) ∧ drawing.touched = !points.isEmpty := by
  cases ht : targets rule d.width d.height x y rows with
  | error e =>
    rw [draw, ht] at h
    cases h
  | ok points =>
    rw [draw_eq ht] at h
    cases hf : d.flipAll points with
    | error e =>
      rw [hf] at h
      cases h
    | ok r =>
      rw [hf] at h
      cases h
      exact ⟨points, rfl, hf, rfl⟩

theorem draw_preserves_size {d : Display} {x y : Int} {rows : List UInt8} {drawing : Drawing}
    (h : draw rule d x y rows = .ok drawing) :
    drawing.display.width = d.width ∧ drawing.display.height = d.height :=
  have ⟨_, _, hf, _⟩ := draw_eq_ok h
  Display.flipAll_preserves_size hf

theorem draw_untouched {d : Display} {x y : Int} {rows : List UInt8} {drawing : Drawing}
    (h : draw rule d x y rows = .ok drawing) (untouched : drawing.touched = false) :
    drawing.display = d := by
  have ⟨points, _, hf, ht⟩ := draw_eq_ok h
  rw [untouched] at ht
  have none_hit : points = [] := by simpa using ht
  rw [none_hit] at hf
  exact (congrArg Prod.snd (Except.ok.inj hf)).symm

end Sprite
end Chip8
