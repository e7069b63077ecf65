import Mathlib.Control.Monad.Basic
import Chip8.Window
import Chip8.Proofs.Grid

namespace Chip8

-- A rectangle of window pixels. Its right and its bottom edge are not part of it.
structure Area where
  left   : Int
  top    : Int
  width  : Int
  height : Int

namespace Area

def Has (a : Area) (i j : Int) : Prop :=
  (a.left ≤ i ∧ i < a.left + a.width) ∧ (a.top ≤ j ∧ j < a.top + a.height)

instance (a : Area) (i j : Int) : Decidable (a.Has i j) :=
  inferInstanceAs (Decidable (_ ∧ _))

def Apart (a b : Area) : Prop :=
  ∀ i j, ¬(a.Has i j ∧ b.Has i j)

def Inside (a : Area) (width height : Int) : Prop :=
  (0 ≤ a.left ∧ a.left + a.width ≤ width) ∧ (0 ≤ a.top ∧ a.top + a.height ≤ height)

def paint (colour : Colour) (a : Area) : Command :=
  .rect a.left a.top a.width a.height colour

def square (scale : Int) (p : Nat × Nat) : Area where
  left   := p.1 * scale
  top    := p.2 * scale
  width  := scale
  height := scale

end Area

abbrev Surface := Int → Int → Colour

namespace Surface

def act (s : Surface) : Command → Surface
  | .fill colour => fun _ _ => colour
  | .rect (some left) (some top) (some width) (some height) colour =>
    fun i j => if Area.Has ⟨left, top, width, height⟩ i j then colour else s i j
  | _ => s

def after (s : Surface) (commands : List Command) : Surface :=
  commands.foldl act s

variable {s : Surface}

theorem after_cons (c : Command) (rest : List Command) : s.after (c :: rest) = (s.act c).after rest :=
  rfl

theorem after_append (xs ys : List Command) : s.after (xs ++ ys) = (s.after xs).after ys :=
  List.foldl_append

theorem after_paint (s : Surface) (colour : Colour) (areas : List Area) (i j : Int) :
    s.after (areas.map (Area.paint colour)) i j = if ∃ a ∈ areas, a.Has i j then colour else s i j := by
  induction areas generalizing s with
  | nil => simp [after]
  | cons a rest ih =>
    have here : s.act (Area.paint colour a) i j = if a.Has i j then colour else s i j := rfl
    rw [List.map_cons, after_cons, ih, here]
    by_cases later : ∃ b ∈ rest, b.Has i j <;> by_cases first : a.Has i j <;> simp [later, first]

end Surface

namespace Display

def Precedes (p q : Nat × Nat) : Prop :=
  p.2 < q.2 ∨ p.2 = q.2 ∧ p.1 < q.1

theorem Precedes.ne {p q : Nat × Nat} (h : Precedes p q) : p ≠ q := by
  rintro rfl
  simp [Precedes] at h

variable {d : Display} {x y : Nat}

theorem length_row_le (d : Display) (y : Nat) : (d.row y).length ≤ d.width.toNat := by
  simp only [row, Array.length_toList, Array.size_extract]
  omega

theorem get_of_row {row : List Bool} {on : Bool} (here : d.rows[y]? = some row) (pixel : row[x]? = some on) :
    d.get x y = .ok on := by
  have has : d.Has x y := by
    have below := (List.getElem?_eq_some_iff.mp here).fst
    have left := (List.getElem?_eq_some_iff.mp pixel).fst
    have isRow : d.row y = row := by simpa [rows, length_rows d ▸ below] using here
    have within := isRow ▸ d.length_row_le y
    rw [length_rows] at below
    simp only [Has]
    omega
  obtain ⟨on', got⟩ := exists_get has
  obtain ⟨row', here', _, pixel'⟩ := exists_row got
  cases here.symm.trans here'
  cases pixel.symm.trans pixel'
  exact got

theorem mem_litPixels : (x, y) ∈ d.litPixels ↔ d.get x y = .ok true := by
  have rows : (x, y) ∈ d.litPixels ↔ ∃ row, d.rows[y]? = some row ∧ row[x]? = some true := by
    simp [litPixels, List.mem_zipIdx_iff_getElem?]
  rw [rows]
  constructor
  case mp =>
    rintro ⟨row, here, pixel⟩
    exact get_of_row here pixel
  case mpr =>
    intro got
    obtain ⟨row, here, _, pixel⟩ := exists_row got
    exact ⟨row, here, pixel⟩

theorem pairwise_zipIdx (l : List α) : l.zipIdx.Pairwise fun a b => a.2 < b.2 := by
  rw [← List.pairwise_map, List.zipIdx_map_snd]
  exact List.pairwise_lt_range' 1

theorem litPixels_pairwise (d : Display) : d.litPixels.Pairwise Precedes := by
  refine List.pairwise_flatMap.mpr ⟨fun (row, y) _ => ?within, ?between⟩
  case within =>
    refine List.pairwise_map.mpr (((pairwise_zipIdx row).filter _).imp fun less => ?_)
    exact .inr ⟨rfl, less⟩
  case between =>
    refine (pairwise_zipIdx d.rows).imp fun less p hp q hq => ?_
    obtain ⟨_, _, rfl⟩ := List.mem_map.mp hp
    obtain ⟨_, _, rfl⟩ := List.mem_map.mp hq
    exact .inl less

theorem length_litPixels (wide : 0 ≤ d.width) : d.litPixels.length = d.litCount := by
  have nodup : d.litPixels.Nodup := d.litPixels_pairwise.imp Precedes.ne
  have same : d.litPixels.toFinset = d.litCoordinates := by
    ext ⟨x, y⟩
    rw [List.mem_toFinset, mem_litPixels, mem_litCoordinates]
  -- Without columns there are no pixels that could be on.
  have lit : d.Dark ∨ 0 < d.width := by
    rcases Int.lt_or_eq_of_le wide with pos | zero
    · exact .inr pos
    · have none : d.pixels.size = 0 := by
        have := d.size_eq
        rw [← zero, Int.zero_mul] at this
        omega
      refine .inl fun on mem => ?_
      rw [Array.eq_empty_of_size_eq_zero none] at mem
      exact absurd mem (Array.not_mem_empty on)
  rw [litCount_eq_card lit, ← same, List.toFinset_card_of_nodup nodup]

end Display

namespace Area

variable {scale i j : Int} {p q : Nat × Nat}

theorem square_has_iff (positive : 1 ≤ scale) : (square scale p).Has i j ↔ i / scale = p.1 ∧ j / scale = p.2 := by
  rw [Int.ediv_eq_iff_of_pos (by omega), Int.ediv_eq_iff_of_pos (by omega)]
  rfl

theorem square_apart (positive : 1 ≤ scale) (ne : p ≠ q) : (square scale p).Apart (square scale q) := by
  rintro i j ⟨inP, inQ⟩
  obtain ⟨column, row⟩ := (square_has_iff positive).mp inP
  obtain ⟨column', row'⟩ := (square_has_iff positive).mp inQ
  exact ne (Prod.ext (by omega) (by omega))

theorem square_inside {d : Display} (positive : 1 ≤ scale) (has : d.Has p.1 p.2) :
    (square scale p).Inside (d.width * scale) (d.height * scale) := by
  obtain ⟨⟨left, right⟩, top, bottom⟩ := has
  have steps (n : Nat) {size : Int} (less : n < size) : n * scale + scale ≤ size * scale := by
    calc (n * scale + scale : Int)
      _ = (n + 1) * scale := by rw [Int.add_mul, Int.one_mul]
      _ ≤ size * scale    := Int.mul_le_mul_of_nonneg_right (by omega) (by omega)
  have low (n : Nat) : 0 ≤ (n * scale : Int) := Int.mul_nonneg (Int.natCast_nonneg n) (by omega)
  exact ⟨⟨low p.1, steps p.1 right⟩, low p.2, steps p.2 bottom⟩

end Area

namespace Window

variable {w : Window} {scale : Int}

theorem paint_eq_square (scaled : w.scale = some scale) (p : Nat × Nat) (colour : Colour) :
    w.paint p.1 p.2 colour = (Area.square scale p).paint colour := by
  simp only [paint, squares, scaled, Option.map_some]
  rfl

theorem renderCommands_eq (scaled : w.scale = some scale) (d : Display) :
    w.renderCommands d = .fill .off :: (d.litPixels.map (Area.square scale)).map (Area.paint .on) ++ [.flip] := by
  have squares : d.litPixels.map (fun p => w.paint p.1 p.2 .on) =
      (d.litPixels.map (Area.square scale)).map (Area.paint .on) := by
    rw [List.map_map]
    exact List.map_congr_left fun p _ => paint_eq_square scaled p .on
  rw [← squares]
  rfl

theorem mapM_paintValue (scaled : w.scale = some scale) (pixels : List (Nat × Nat)) :
    (pixels.mapM fun p => w.paintValue p.1 p.2 1) =
      .ok ((pixels.map (Area.square scale)).map (Area.paint .on)) := by
  have on (p : Nat × Nat) : w.paintValue p.1 p.2 1 = pure ((Area.square scale p).paint .on) :=
    congrArg Except.ok (paint_eq_square scaled p .on)
  simp only [on, List.mapM_pure, List.map_map]
  rfl

end Window

namespace Display

variable {d : Display} {scale i j : Int} {on : Bool}

theorem exists_square_iff (positive : 1 ≤ scale) (pixel : d.get (i / scale) (j / scale) = .ok on) :
    (∃ a ∈ d.litPixels.map (Area.square scale), a.Has i j) ↔ on = true := by
  constructor
  case mp =>
    rintro ⟨a, mem, has⟩
    obtain ⟨⟨x, y⟩, lit, rfl⟩ := List.mem_map.mp mem
    obtain ⟨column, row⟩ := (Area.square_has_iff positive).mp has
    rw [column, row, mem_litPixels.mp lit] at pixel
    exact (Except.ok.inj pixel).symm
  case mpr =>
    rintro rfl
    obtain ⟨⟨left, _⟩, top, _⟩ := (get_eq_ok_iff.mp pixel).left
    obtain ⟨x, column⟩ := Int.eq_ofNat_of_zero_le left
    obtain ⟨y, row⟩ := Int.eq_ofNat_of_zero_le top
    rw [column, row] at pixel
    have has := (Area.square_has_iff (p := (x, y)) positive).mpr ⟨column, row⟩
    exact ⟨_, List.mem_map_of_mem (mem_litPixels.mpr pixel), has⟩

theorem has_of_window_pixel (positive : 1 ≤ scale) (left : 0 ≤ i) (right : i < d.width * scale) (top : 0 ≤ j)
    (bottom : j < d.height * scale) : d.Has (i / scale) (j / scale) :=
  have pos : 0 < scale := positive
  ⟨⟨Int.ediv_nonneg left pos.le, Int.ediv_lt_of_lt_mul pos right⟩,
    Int.ediv_nonneg top pos.le, Int.ediv_lt_of_lt_mul pos bottom⟩

end Display

namespace Window

variable {w : Window} {scale : Int}

-- Rendering never fails in an open window: it fills the window, paints a square for every lit pixel in their order row
-- by row, and shows what was painted. The squares lie in the window, apart from each other. Whatever was painted on the
-- surface before, each window pixel ends up in the colour of the display pixel in whose square it lies.
theorem rendering_paints_display (isOpen : w.isOpen = true) (scaled : w.scale = some scale) (positive : 1 ≤ scale)
    {d : Display} (wide : 0 ≤ d.width) :
    let squares := d.litPixels.map (Area.square scale)
    let commands := .fill .off :: squares.map (Area.paint .on) ++ [.flip]
    w.render d = .ok commands ∧
      (d.litPixels.mapM fun p => w.paintValue p.1 p.2 1) = .ok (squares.map (Area.paint .on)) ∧
      squares.length = d.litCount ∧
      (∀ x y : Nat, (x, y) ∈ d.litPixels ↔ d.get x y = .ok true) ∧ d.litPixels.Pairwise Display.Precedes ∧
      squares.Pairwise Area.Apart ∧ (∀ a ∈ squares, a.Inside (d.width * scale) (d.height * scale)) ∧
      ∀ (before : Surface) (i j : Int), 0 ≤ i → i < d.width * scale → 0 ≤ j → j < d.height * scale →
        ∃ on, d.get (i / scale) (j / scale) = .ok on ∧ before.after commands i j = if on then .on else .off := by
  intro squares commands
  refine ⟨?render, mapM_paintValue scaled d.litPixels, ?count, fun x y => Display.mem_litPixels, d.litPixels_pairwise,
    ?apart, fun a mem => ?inside, fun before i j left right top bottom => ?shown⟩
  case render =>
    rw [render, if_pos isOpen, renderCommands_eq scaled]
  case count =>
    rw [List.length_map]
    exact d.length_litPixels wide
  case apart =>
    exact List.pairwise_map.mpr (d.litPixels_pairwise.imp fun before => Area.square_apart positive before.ne)
  case inside =>
    obtain ⟨⟨x, y⟩, lit, rfl⟩ := List.mem_map.mp mem
    exact Area.square_inside positive (Display.get_eq_ok_iff.mp (Display.mem_litPixels.mp lit)).left
  case shown =>
    obtain ⟨on, pixel⟩ := Display.exists_get (Display.has_of_window_pixel positive left right top bottom)
    refine ⟨on, pixel, ?_⟩
    have flipped : before.after commands = (before.act (.fill .off)).after (squares.map (Area.paint .on)) := by
      rw [Surface.after_append, Surface.after_cons]
      rfl
    rw [flipped, Surface.after_paint]
    simp only [squares, Display.exists_square_iff positive pixel]
    rfl

def cornerCommands : List Command :=
  [.fill .off, .rect (some 0) (some 0) (some 10) (some 10) .on,
    .rect (some 20) (some 10) (some 10) (some 10) .on, .flip]

theorem corners_cover_old_contents :
    ∃ d₀, Display.blank 6 3 2 = .ok d₀ ∧
      (closed (some 10) 3 2).opened.render (d₀.after Display.someFlips) = .ok cornerCommands ∧
      Surface.after (fun _ _ => .on) cornerCommands 29 10 = .on ∧
      Surface.after (fun _ _ => .on) cornerCommands 9 10 = .off := by
  refine ⟨_, rfl, ?_⟩
  generalize made : Display.after _ Display.someFlips = d
  obtain ⟨width, height, lit, on, off⟩ : d.width = 3 ∧ d.height = 2 ∧ d.litPixels = [(0, 0), (2, 1)] ∧
      d.get 2 1 = .ok true ∧ d.get 0 1 = .ok false := by
    subst made
    decide +kernel
  have commands :
      .fill .off :: (d.litPixels.map (Area.square 10)).map (Area.paint .on) ++ [.flip] = cornerCommands := by
    rw [lit]
    rfl
  have wide : 0 ≤ d.width := by omega
  have ⟨render, _, _, _, _, _, _, shown⟩ :=
    rendering_paints_display (w := (closed (some 10) 3 2).opened) rfl rfl (by decide : (1 : Int) ≤ 10) wide
  rw [commands] at render shown
  obtain ⟨_, pixel, right⟩ := shown (fun _ _ => .on) 29 10 (by omega) (by omega) (by omega) (by omega)
  obtain ⟨_, pixel', left⟩ := shown (fun _ _ => .on) 9 10 (by omega) (by omega) (by omega) (by omega)
  cases on.symm.trans pixel
  cases off.symm.trans pixel'
  exact ⟨render, right, left⟩

end Window
end Chip8
