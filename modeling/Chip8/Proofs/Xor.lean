import Chip8.Proofs.FaultCauses
import Chip8.Proofs.Grid
import Chip8.Proofs.Targets

namespace Chip8
namespace Display

variable {d d' : Display} {points : List (Int × Int)} {hit : Bool}

theorem eq_of_get (width : d'.width = d.width) (height : d'.height = d.height) (wide : 0 < d.width)
    (get : ∀ x y, d'.get x y = d.get x y) : d' = d := by
  refine Display.ext width height (Array.ext (pixels_size_eq width height) fun i inside' inside => ?_)
  obtain ⟨x, y, has, here⟩ := exists_position wide ⟨i, inside⟩
  have place : (y * d.width + x).toNat = i := congrArg Fin.val here
  obtain ⟨on, got⟩ := exists_get has
  have pixel := (get_eq_ok_iff.mp got).right
  have pixel' := (get_eq_ok_iff.mp ((get x y).trans got)).right
  rw [width, place] at pixel'
  rw [place] at pixel
  exact Option.some.inj ((Array.getElem?_eq_getElem inside').symm.trans
    (pixel'.trans (pixel.symm.trans (Array.getElem?_eq_getElem inside))))

theorem get_flipAll (h : d.flipAll points = .ok (hit, d')) (x y : Int) :
    d'.get x y = (d.get x y).map (· ^^ (points.count (x, y) % 2 == 1)) := by
  induction points generalizing d hit with
  | nil =>
    cases h
    cases d'.get x y <;> simp [Except.map]
  | cons p rest ih =>
    obtain ⟨wasOn, d₁, later, first, more, _⟩ := exists_of_flipAll_cons h
    rw [ih more]
    by_cases here : p = (x, y)
    case pos =>
      subst here
      rw [get_of_flip first, get_flipped first, List.count_cons_self, odd_add]
      simp [Except.map]
    case neg => rw [get_of_flip_other first (Ne.symm here), List.count_cons_of_ne here]

-- A pixel was on when its turn came if it was on at first or was flipped before.
theorem flipAll_hit_iff (h : d.flipAll points = .ok (hit, d')) :
    hit = true ↔ ∃ p ∈ points, d.get p.1 p.2 = .ok true ∨ 2 ≤ points.count p := by
  induction points generalizing d hit with
  | nil =>
    cases h
    simp
  | cons p rest ih =>
    obtain ⟨wasOn, d₁, later, first, more, rfl⟩ := exists_of_flipAll_cons h
    have before := get_of_flip first
    have after := get_flipped first
    -- The rest of the list finds no other pixel changed than the one just flipped.
    have other {q : Int × Int} (ne : q ≠ p) : d₁.get q.1 q.2 = d.get q.1 q.2 := get_of_flip_other first ne
    rw [Bool.or_eq_true, ih more]
    constructor
    case mp =>
      rintro (on | ⟨q, mem, reason⟩)
      · exact ⟨p, List.mem_cons_self, .inl (before.trans (congrArg Except.ok on))⟩
      · by_cases here : q = p
        case pos =>
          subst here
          have again : 2 ≤ (q :: rest).count q := by
            have := List.count_pos_iff.mpr mem
            rw [List.count_cons_self]
            omega
          exact ⟨q, List.mem_cons_self, .inr again⟩
        case neg =>
          rw [other here, ← List.count_cons_of_ne (Ne.symm here)] at reason
          exact ⟨q, List.mem_cons_of_mem p mem, reason⟩
    case mpr =>
      rintro ⟨q, mem, reason⟩
      by_cases here : q = p
      case pos =>
        subst here
        cases wasOn with
        | true => exact .inl rfl
        | false =>
          rw [before, List.count_cons_self] at reason
          have again : 0 < rest.count q := by
            rcases reason with on | twice
            · cases on
            · omega
          exact .inr ⟨q, List.count_pos_iff.mp again, .inl after⟩
      case neg =>
        rw [← other here, List.count_cons_of_ne (Ne.symm here)] at reason
        exact .inr ⟨q, List.mem_of_ne_of_mem here mem, reason⟩

end Display

namespace Sprite

structure Xors (d : Display) (hits : Int × Int → Nat) (drawing : Drawing) : Prop where
  size      : drawing.display.width = d.width ∧ drawing.display.height = d.height
  pixels    : ∀ p, drawing.display.get p.1 p.2 = (d.get p.1 p.2).map (· ^^ (hits p % 2 == 1))
  collision : drawing.collision = true ↔ ∃ p, 1 ≤ hits p ∧ (d.get p.1 p.2 = .ok true ∨ 2 ≤ hits p)
  touched   : drawing.touched = true ↔ ∃ p, 1 ≤ hits p

variable {rule : EdgeRule} {d : Display} {m : Memory} {start : Int} {height : Nat} {rows : List UInt8}

theorem draw_xors (fits : rule.Fits d) {x y : Int} (hx : 0 ≤ x) (hy : 0 ≤ y)
    (read : m.readBlock start height = .ok rows) {drawing : Drawing} (drew : draw rule d x y rows = .ok drawing) :
    Xors d (hits rule d x y (m.spriteBits start height)) drawing := by
  obtain ⟨points, targets, flips, touched⟩ := draw_eq_ok drew
  have listed := targets.symm.trans (targets_eq fits hx hy rows)
  have count (p : Int × Int) : points.count p = hits rule d x y (m.spriteBits start height) p := by
    rw [Except.ok.inj listed, count_targets read]
  have mem (p : Int × Int) : p ∈ points ↔ 1 ≤ hits rule d x y (m.spriteBits start height) p := by
    rw [← count]
    exact List.count_pos_iff.symm
  refine ⟨draw_preserves_size drew, fun p => ?pixels, ?collision, ?touched⟩
  case pixels => rw [Display.get_flipAll flips, count]
  case collision =>
    rw [Display.flipAll_hit_iff flips]
    simp only [mem, count]
  case touched =>
    rw [touched]
    simp only [← mem]
    cases points <;> simp

namespace Xors

variable {hits : Int × Int → Nat} {drawing : Drawing}

theorem collision_iff_lit (xors : Xors d hits drawing) (once : ∀ p, hits p ≤ 1) :
    drawing.collision = true ↔ ∃ p, 1 ≤ hits p ∧ d.get p.1 p.2 = .ok true := by
  rw [xors.collision]
  constructor
  · rintro ⟨p, hit, lit | twice⟩
    · exact ⟨p, hit, lit⟩
    · exact absurd (once p) (Nat.not_le_of_lt twice)
  · rintro ⟨p, hit, lit⟩
    exact ⟨p, hit, .inl lit⟩

theorem touched_iff_changed (xors : Xors d hits drawing) (wide : 0 < d.width) (once : ∀ p, hits p ≤ 1)
    (inside : ∀ p, 1 ≤ hits p → d.Has p.1 p.2) : drawing.touched = true ↔ drawing.display ≠ d := by
  rw [xors.touched]
  constructor
  · rintro ⟨p, hit⟩ same
    obtain ⟨on, got⟩ := Display.exists_get (inside p hit)
    have flipped := xors.pixels p
    rw [same, got, Nat.le_antisymm (once p) hit] at flipped
    cases on <;> cases flipped
  · intro changed
    by_contra none
    refine changed (Display.eq_of_get xors.size.left xors.size.right wide fun x y => ?_)
    have missed : hits (x, y) = 0 := by
      by_contra hit
      exact none ⟨(x, y), Nat.pos_of_ne_zero hit⟩
    have kept := xors.pixels (x, y)
    rw [missed] at kept
    rw [kept]
    cases d.get x y <;> simp [Except.map]

end Xors

theorem exists_bit_of_hit {x y : Int} {bits : Finset (Nat × Nat)} {p : Int × Int} (hit : 1 ≤ hits rule d x y bits p) :
    ∃ b ∈ bits, rule.target? d (x + b.1) (y + b.2) = some p := by
  obtain ⟨b, mem⟩ := Finset.card_pos.mp hit
  exact ⟨b, Finset.mem_filter.mp mem⟩

theorem exists_hit_iff {x y : Int} {bits : Finset (Nat × Nat)} :
    (∃ p, 1 ≤ hits rule d x y bits p) ↔ ∃ b ∈ bits, (rule.target? d (x + b.1) (y + b.2)).isSome := by
  constructor
  · rintro ⟨p, hit⟩
    obtain ⟨b, mem, target⟩ := exists_bit_of_hit hit
    exact ⟨b, mem, target ▸ rfl⟩
  · rintro ⟨b, mem, placed⟩
    obtain ⟨p, target⟩ := Option.isSome_iff_exists.mp placed
    exact ⟨p, Finset.card_pos.mpr ⟨b, Finset.mem_filter.mpr ⟨mem, target⟩⟩⟩

end Sprite

namespace Machine

variable {m : Machine}

theorem exists_drawn {word : Int} (isDraw : (Word.fields word).family.val = 0xD) (fits : m.edge.Fits m.display)
    (inside : Memory.blockFault? m.index (Word.fields word).n = none) :
    ∃ drawing,
      Sprite.Xors m.display (m.hits (Word.fields word)) drawing ∧
      m.execute word = .done { (m.advance word).setV flag drawing.collision.toUInt8 with
        display := drawing.display
        draw := drawing.touched } := by
  rw [execute_of_spells (Fields.spells_draw isDraw)]
  cases (m.advance word).draw_cases (Word.fields word).x (Word.fields word).y (Word.fields word).n with
  | fault fails => cases inside.symm.trans fails
  | @refused rows _ _ _ refused =>
    have ⟨_, drew⟩ := Sprite.exists_draw fits (Int.natCast_nonneg (m.v.get (Word.fields word).x).toNat)
      (Int.natCast_nonneg (m.v.get (Word.fields word).y).toNat) rows
    cases drew.symm.trans refused
  | @drawn _ drawing _ read drew draw =>
    refine ⟨drawing, Sprite.draw_xors fits (Int.natCast_nonneg _) (Int.natCast_nonneg _) read drew, draw.trans ?_⟩
    simp [advance]

theorem toUInt8_eq_one_iff {b : Bool} : b.toUInt8 = 1 ↔ b = true := by
  cases b <;> decide

theorem has_of_hit (fits : m.edge.Fits m.display) {f : Fields} {p : Int × Int} (hit : 1 ≤ m.hits f p) :
    m.display.Has p.1 p.2 := by
  obtain ⟨b, _, target⟩ := Sprite.exists_bit_of_hit hit
  exact (EdgeRule.of_target? fits (by omega) (by omega) target).left

-- Drawing flips every pixel once for each set bit that falls on it, where columns and rows past the edges are left out
-- or wrapped around. The flag tells whether a pixel that was hit was on before or was hit again, and the display is to
-- be shown if a pixel was hit. On a display that is at least as large as the sprite no pixel is hit again, so that the
-- display is to be shown if, and only if, it has changed.
theorem drawing_is_xor {word : Int} (isDraw : (Word.fields word).family.val = 0xD)
    (size : 1 ≤ m.display.width ∧ 1 ≤ m.display.height)
    (block : ∀ r < (Word.fields word).n.val, 0 ≤ m.index + r ∧ m.index + r < 4096) :
    let f := Word.fields word
    let lit := fun p : Int × Int => m.display.get p.1 p.2 = .ok true
    ∃ m', m.execute word = .done m' ∧
      (∀ p, m'.display.get p.1 p.2 = (m.display.get p.1 p.2).map (· ^^ (m.hits f p % 2 == 1))) ∧
      ((∃ p, 1 ≤ m.hits f p ∧ (lit p ∨ 2 ≤ m.hits f p)) → m'.v.get flag = 1) ∧
      (¬(∃ p, 1 ≤ m.hits f p ∧ (lit p ∨ 2 ≤ m.hits f p)) → m'.v.get flag = 0) ∧
      (m'.draw = true ↔ ∃ b ∈ m.spriteBits f, (m.spriteTarget? f b).isSome) ∧
      (8 ≤ m.display.width → f.n.val ≤ m.display.height →
        (∀ p, m.hits f p ≤ 1) ∧ (m'.v.get flag = 1 ↔ ∃ p, 1 ≤ m.hits f p ∧ lit p) ∧
        (m'.draw = true ↔ m'.display ≠ m.display)) := by
  intro f lit
  have fits : m.edge.Fits m.display := fun _ => size
  obtain ⟨drawing, xors, done⟩ := exists_drawn isDraw fits (Memory.blockFault?_eq_none block)
  have flagged : ((m.advance word).setV flag drawing.collision.toUInt8).v.get flag = drawing.collision.toUInt8 :=
    get_setV _ _ _
  refine ⟨_, done, xors.pixels, fun collides => ?_, fun clear => ?_, xors.touched.trans Sprite.exists_hit_iff,
    fun wide tall => ?_⟩
  · rw [flagged, toUInt8_eq_one_iff, xors.collision]
    exact collides
  · rw [flagged, Bool.eq_false_iff.mpr (mt xors.collision.mp clear)]
    rfl
  · have once : ∀ p, m.hits f p ≤ 1 := Sprite.hits_le_one fits wide tall (Int.natCast_nonneg _) (Int.natCast_nonneg _)
    refine ⟨once, ?_, xors.touched_iff_changed (by omega) once fun p => has_of_hit fits⟩
    rw [flagged, toUInt8_eq_one_iff, xors.collision_iff_lit once]

def smallDisplay : Display where
  width := 3
  height := 2
  pixels := Array.replicate 6 false
  size_eq := by simp

theorem wrapped_digit_vanishes :
    let m := powerOn smallDisplay .wrap 16 (.cycle #[]) none
    (Word.fields 0xD005).family.val = 0xD ∧ (1 ≤ m.display.width ∧ 1 ≤ m.display.height) ∧
      ∃ m', m.execute 0xD005 = .done m' ∧ m'.v.get flag = 1 ∧ m'.draw = true ∧ m'.display.get 0 0 = .ok false := by
  intro m
  have isDraw : (Word.fields 0xD005).family.val = 0xD := by decide
  have size : 1 ≤ m.display.width ∧ 1 ≤ m.display.height := by decide
  have block : ∀ r < (Word.fields 0xD005).n.val, 0 ≤ m.index + r ∧ m.index + r < 4096 := by decide +kernel
  have often : m.hits (Word.fields 0xD005) (0, 0) = 6 := by decide +kernel
  have placed : ∃ b ∈ m.spriteBits (Word.fields 0xD005), (m.spriteTarget? (Word.fields 0xD005) b).isSome :=
    ⟨(0, 0), by decide +kernel⟩
  obtain ⟨m', done, pixels, collides, _, draw, _⟩ := drawing_is_xor isDraw size block
  have first := pixels (0, 0)
  rw [often] at first
  exact ⟨isDraw, size, m', done, collides ⟨(0, 0), often ▸ by decide, .inr (often ▸ by decide)⟩, draw.mpr placed, first⟩

end Machine
end Chip8
