import Mathlib.Data.Finset.Card
import Mathlib.Data.Fintype.Fin
import Mathlib.Data.Finset.Prod
import Chip8.Proofs.Drawing

namespace Chip8

theorem odd_add (a b : Nat) : ((a + b) % 2 == 1) = ((a % 2 == 1) ^^ (b % 2 == 1)) := by
  rcases Nat.mod_two_eq_zero_or_one a with even | odd <;> rcases Nat.mod_two_eq_zero_or_one b with even' | odd' <;>
    simp [Nat.add_mod, *]

namespace Display

inductive Access where
  | flip (x y : Int)
  | get (x y : Int)
  | clear

-- An access that is refused leaves the display as it is.
def perform (d : Display) : Access → Display
  | .flip x y =>
    match d.flip x y with
    | .ok (_, d') => d'
    | .error _    => d
  | .get _ _ => d
  | .clear   => d.clear

def after (d : Display) (accesses : List Access) : Display :=
  accesses.foldl perform d

-- The number of successful flips of the pixel since the last clear, after an access. Before it, the number is `n`.
def flipsAfter (d : Display) (x y : Int) (n : Nat) : Access → Nat
  | .flip x' y' => if (d.flip x' y').isOk ∧ (x', y') = (x, y) then n + 1 else n
  | .get _ _    => n
  | .clear      => 0

def flips (d : Display) (x y : Int) (n : Nat) : List Access → Nat
  | []        => n
  | a :: rest => (d.perform a).flips x y (d.flipsAfter x y n a) rest

def litCoordinates (d : Display) : Finset (Nat × Nat) :=
  (Finset.range d.width.toNat ×ˢ Finset.range d.height.toNat).filter fun p => d.get p.1 p.2 = .ok true

def pixelOf? (c : Char) : Option Bool :=
  if c = '#' then some true
  else if c = '.' then some false
  else none

def readText? (text : String) : Option (List (List Bool)) :=
  (text.toList.splitOn '\n').mapM fun line => line.mapM pixelOf?

def Dark (d : Display) : Prop :=
  ∀ on ∈ d.pixels, on = false

structure IsBlank (width height : Int) (d : Display) : Prop where
  width  : d.width = width
  height : d.height = height
  dark   : d.Dark

structure IsGrid (width height : Int) (bit : Int → Int → Bool) (d : Display) : Prop where
  width    : d.width = width
  height   : d.height = height
  get      : ∀ x y, d.get x y = if d.Has x y then .ok (bit x y) else .error (.offDisplay x y)
  flip     : ∀ x y, (d.flip x y).map Prod.fst = d.get x y
  refused  : ∀ x y, ¬d.Has x y → d.perform (.flip x y) = d
  apart    : ∀ x y x' y', (x', y') ≠ (x, y) → (d.perform (.flip x y)).get x' y' = d.get x' y'
  rowCount : (d.rows.length : Int) = max d.height 0
  rows     : ∀ x y, d.Has x y → ∃ row, d.rows[y.toNat]? = some row ∧ (row.length : Int) = d.width ∧
    row[x.toNat]? = some (bit x y)
  litCount : d.litCount = d.litCoordinates.card
  text     : 1 ≤ d.height → readText? d.text = some d.rows

variable {d d' : Display} {x y x' y' : Int} {on : Bool}

theorem blank_isBlank {room : Nat} {width height : Int} (made : blank room width height = .ok d) : d.IsBlank width height := by
  simp only [blank] at made
  split at made
  · cases made
  · split at made
    · cases made
      exact ⟨rfl, rfl, fun on mem => Array.eq_of_mem_replicate mem⟩
    · cases made

theorem position_inj (h : d.Has x y) (h' : d.Has x' y') (same : d.position x y h = d.position x' y' h') :
    x = x' ∧ y = y' := by
  have places : y * d.width + x = y' * d.width + x' := by
    have low := h.bounds.left
    have low' := h'.bounds.left
    have := congrArg Fin.val same
    simp only [position] at this
    omega
  obtain ⟨⟨left, right⟩, _⟩ := h
  obtain ⟨⟨left', right'⟩, _⟩ := h'
  have column : x = x' := by
    have := congrArg (· % d.width) places
    simpa [Int.add_comm, Int.emod_eq_of_lt, left, right, left', right'] using this
  subst column
  exact ⟨rfl, Int.eq_of_mul_eq_mul_right (a := d.width) (by omega) (by omega)⟩

theorem exists_position (wide : 0 < d.width) (i : Fin d.pixels.size) : ∃ x y h, d.position x y h = i := by
  have size := d.size_eq
  have bound := i.isLt
  have has : d.Has (i % d.width) (i / d.width) := by
    refine ⟨⟨Int.emod_nonneg _ (by omega), Int.emod_lt_of_pos _ wide⟩, Int.ediv_nonneg (by omega) (by omega), ?_⟩
    refine Int.ediv_lt_of_lt_mul wide ?_
    rw [Int.mul_comm, ← size]
    omega
  refine ⟨_, _, has, Fin.ext ?_⟩
  simp only [position, Int.mul_comm (_ / _), Int.mul_ediv_add_emod]
  rfl

theorem get_of_not_has (h : ¬d.Has x y) : d.get x y = .error (.offDisplay x y) :=
  dif_neg h

theorem flip_of_not_has (h : ¬d.Has x y) : d.flip x y = .error (.offDisplay x y) :=
  dif_neg h

theorem get_eq_ok_iff : d.get x y = .ok on ↔ d.Has x y ∧ d.pixels[(y * d.width + x).toNat]? = some on := by
  by_cases has : d.Has x y
  case pos =>
    have place := (d.position x y has).isLt
    simp only [position] at place
    simp [get, position, has, place]
  case neg => simp [get_of_not_has, has]

theorem exists_get (h : d.Has x y) : ∃ on, d.get x y = .ok on :=
  ⟨_, dif_pos h⟩

theorem get_of_flip (h : d.flip x y = .ok (on, d')) : d.get x y = .ok on := by
  simp only [flip] at h
  split at h <;> cases h
  case isTrue has => exact dif_pos has

theorem get_flipped (h : d.flip x y = .ok (on, d')) : d'.get x y = .ok !on := by
  simp only [flip] at h
  split at h <;> cases h
  case isTrue has =>
    exact get_eq_ok_iff.mpr ⟨has, Array.getElem?_set_self (d.position x y has).isLt⟩

theorem get_of_flip_other (h : d.flip x y = .ok (on, d')) (other : (x', y') ≠ (x, y)) :
    d'.get x' y' = d.get x' y' := by
  obtain ⟨width, height⟩ := flip_preserves_size h
  by_cases has' : d.Has x' y'
  case pos =>
    obtain ⟨on', got⟩ := exists_get has'
    rw [got]
    refine get_eq_ok_iff.mpr ⟨has'.resized width height, ?_⟩
    rw [width, ← (get_eq_ok_iff.mp got).right]
    simp only [flip] at h
    split at h <;> cases h
    case isTrue has =>
      refine Array.getElem?_set_ne (d.position x y has).isLt fun same => other ?_
      obtain ⟨hx, hy⟩ := position_inj has has' (Fin.ext same)
      rw [hx, hy]
  case neg => rw [get_of_not_has has', get_of_not_has (mt (Has.resized · width.symm height.symm) has')]

theorem get_of_dark (dark : d.Dark) (h : d.Has x y) : d.get x y = .ok false := by
  have ⟨on, got⟩ := exists_get h
  have ⟨_, pixel⟩ := get_eq_ok_iff.mp got
  rw [got, dark on (Array.mem_of_getElem? pixel)]

theorem clear_dark (d : Display) : d.clear.Dark :=
  fun _ mem => Array.eq_of_mem_replicate mem

theorem perform_preserves_size (d : Display) (a : Access) :
    (d.perform a).width = d.width ∧ (d.perform a).height = d.height := by
  cases a with
  | flip x y =>
    simp only [perform]
    split
    case h_1 flipped => exact flip_preserves_size flipped
    case h_2 => exact ⟨rfl, rfl⟩
  | get | clear => exact ⟨rfl, rfl⟩

theorem after_preserves_size (d : Display) (accesses : List Access) :
    (d.after accesses).width = d.width ∧ (d.after accesses).height = d.height := by
  induction accesses generalizing d with
  | nil => exact ⟨rfl, rfl⟩
  | cons a rest ih =>
    have ⟨width, height⟩ := ih (d.perform a)
    have ⟨width', height'⟩ := d.perform_preserves_size a
    exact ⟨width.trans width', height.trans height'⟩

theorem get_perform {n : Nat} (has : d.Has x y) (parity : d.get x y = .ok (n % 2 == 1)) (a : Access) :
    (d.perform a).get x y = .ok (d.flipsAfter x y n a % 2 == 1) := by
  cases a with
  | get => exact parity
  | clear => exact get_of_dark d.clear_dark has
  | flip x' y' =>
    simp only [perform, flipsAfter]
    split
    case h_1 on d' flipped =>
      rw [flipped]
      by_cases here : (x', y') = (x, y)
      case pos =>
        cases here
        have before := Except.ok.inj ((get_of_flip flipped).symm.trans parity)
        rw [if_pos ⟨rfl, rfl⟩, get_flipped flipped, before, odd_add]
        simp
      case neg =>
        rw [if_neg fun both => here both.right, get_of_flip_other flipped (Ne.symm here), parity]
    case h_2 e refused =>
      rw [refused, if_neg fun both => nomatch both.left]
      exact parity

theorem get_after {n : Nat} (has : d.Has x y) (parity : d.get x y = .ok (n % 2 == 1)) (accesses : List Access) :
    (d.after accesses).get x y = .ok (d.flips x y n accesses % 2 == 1) := by
  induction accesses generalizing d n with
  | nil => exact parity
  | cons a rest ih =>
    have ⟨width, height⟩ := d.perform_preserves_size a
    exact ih (has.resized width height) (get_perform has parity a)

theorem after_dark (dark : d.Dark) (narrow : d.width ≤ 0) (accesses : List Access) : (d.after accesses).Dark := by
  induction accesses generalizing d with
  | nil => exact dark
  | cons a rest ih =>
    refine ih ?_ ((d.perform_preserves_size a).left ▸ narrow)
    cases a with
    | flip x y =>
      have off : ¬d.Has x y := fun has => absurd has.left (by omega)
      simp only [perform, flip_of_not_has off]
      exact dark
    | get => exact dark
    | clear => exact d.clear_dark

theorem length_rows (d : Display) : d.rows.length = d.height.toNat := by
  simp [rows]

theorem row_le_size {b : Nat} (h : b < d.height.toNat) : b * d.width.toNat + d.width.toNat ≤ d.pixels.size := by
  by_cases wide : 0 ≤ d.width
  case neg => simp [Int.toNat_eq_zero.mpr (Int.le_of_not_le wide)]
  case pos =>
    have size := congrArg Int.toNat d.size_eq
    rw [Int.toNat_natCast, Int.toNat_mul wide (by omega), Nat.mul_comm] at size
    rw [size, ← Nat.succ_mul]
    exact Nat.mul_le_mul_right _ h

theorem exists_row (got : d.get x y = .ok on) :
    ∃ row, d.rows[y.toNat]? = some row ∧ (row.length : Int) = d.width ∧ row[x.toNat]? = some on := by
  have ⟨⟨⟨left, right⟩, top, bottom⟩, pixel⟩ := get_eq_ok_iff.mp got
  have here : y.toNat < d.height.toNat := by omega
  have fits := row_le_size here
  refine ⟨d.row y.toNat, by simp [rows, here], ?length, ?entry⟩
  case length =>
    simp only [row, Array.length_toList, Array.size_extract]
    omega
  case entry =>
    have wide : 0 ≤ d.width := by omega
    have place : (y * d.width + x).toNat = y.toNat * d.width.toNat + x.toNat := by
      rw [Int.toNat_add (Int.mul_nonneg top wide) left, Int.toNat_mul top wide]
    simp only [row, Array.getElem?_toList, Array.getElem?_extract]
    rw [if_pos (by omega), ← place, pixel]

theorem litCount_eq_card_places (d : Display) :
    d.litCount = (Finset.univ.filter fun i : Fin d.pixels.size => d.pixels[i] = true).card :=
  Array.count_toList.symm.trans (Fin.card_filter_univ_eq_vector_get_eq_count true ⟨d.pixels.toList, rfl⟩).symm

theorem mem_litCoordinates {p : Nat × Nat} : p ∈ d.litCoordinates ↔ d.get p.1 p.2 = .ok true := by
  refine Finset.mem_filter.trans (and_iff_right_of_imp fun got => ?_)
  have ⟨⟨_, right⟩, _, bottom⟩ := (get_eq_ok_iff.mp got).left
  simp only [Finset.mem_product, Finset.mem_range]
  omega

-- The number of lit pixels counts coordinates, since each place has its own.
theorem litCount_eq_card (lit : d.Dark ∨ 0 < d.width) : d.litCount = d.litCoordinates.card := by
  have has {p : Nat × Nat} (mem : p ∈ d.litCoordinates) : d.Has p.1 p.2 :=
    (get_eq_ok_iff.mp (mem_litCoordinates.mp mem)).left
  rw [litCount_eq_card_places]
  symm
  refine Finset.card_bij (fun p mem => d.position p.1 p.2 (has mem)) ?lands ?injective ?surjective
  case lands =>
    intro p mem
    have got := (dif_pos (has mem)).symm.trans (mem_litCoordinates.mp mem)
    exact Finset.mem_filter.mpr ⟨Finset.mem_univ _, Except.ok.inj got⟩
  case injective =>
    intro p mem p' mem' same
    have ⟨column, row⟩ := position_inj _ _ same
    exact Prod.ext (Int.natCast_inj.mp column) (Int.natCast_inj.mp row)
  case surjective =>
    intro i mem
    have on := (Finset.mem_filter.mp mem).right
    rcases lit with dark | wide
    · cases on.symm.trans (dark _ (Array.getElem_mem i.isLt))
    · obtain ⟨x, y, here, rfl⟩ := exists_position wide i
      obtain ⟨a, rfl⟩ := Int.eq_ofNat_of_zero_le here.left.left
      obtain ⟨b, rfl⟩ := Int.eq_ofNat_of_zero_le here.right.left
      exact ⟨(a, b), mem_litCoordinates.mpr ((dif_pos here).trans (congrArg Except.ok on)), rfl⟩

theorem pixelOf?_pixelChar (on : Bool) : pixelOf? (pixelChar on) = some on := by
  cases on <;> rfl

theorem readText?_text (rows : d.rows ≠ []) : readText? d.text = some d.rows := by
  have unbroken : ∀ line ∈ d.rows.map rowChars, '\n' ∉ line := by
    intro line mem broken
    obtain ⟨row, _, rfl⟩ := List.mem_map.mp mem
    obtain ⟨on, _, pixel⟩ := List.mem_map.mp broken
    cases on <;> cases pixel
  rw [readText?, text, String.toList_ofList, chars, List.splitOn_intercalate _ unbroken (by simpa using rows)]
  have read : (fun line => line.mapM pixelOf?) ∘ rowChars = some := by
    funext row
    rw [Function.comp, rowChars, List.mapM_map, show pixelOf? ∘ pixelChar = pure from funext pixelOf?_pixelChar]
    exact List.mapM_pure.trans (congrArg some row.map_id)
  rw [List.mapM_map, read]
  exact List.mapM_pure.trans (congrArg some d.rows.map_id)

theorem flip_map_fst (d : Display) (x y : Int) : (d.flip x y).map Prod.fst = d.get x y := by
  cases flipped : d.flip x y with
  | ok r => exact (get_of_flip flipped).symm
  | error e =>
    by_cases has : d.Has x y
    case pos =>
      have ⟨_, _, ok⟩ := exists_flip has
      cases ok.symm.trans flipped
    case neg =>
      cases (flip_of_not_has has).symm.trans flipped
      exact (get_of_not_has has).symm

theorem get_perform_flip_other (d : Display) (other : (x', y') ≠ (x, y)) :
    (d.perform (.flip x y)).get x' y' = d.get x' y' := by
  simp only [perform]
  split
  case h_1 flipped => exact get_of_flip_other flipped other
  case h_2 => rfl

-- Every display that can be made starts with all pixels off. From there, whatever sequence of flips, looks and clears
-- it is asked for, its pixels are independent bits: each tells the parity of its own flips since the last clear.
theorem grid_of_independent_bits (width height : Int) :
    (∀ room d₀, blank room width height = .ok d₀ → d₀.IsBlank width height) ∧
      ∀ d₀ : Display, d₀.IsBlank width height → ∀ accesses : List Access,
        (d₀.after accesses).IsGrid width height fun x y => d₀.flips x y 0 accesses % 2 == 1 := by
  refine ⟨fun _ _ => blank_isBlank, fun d₀ fresh accesses => ?_⟩
  have ⟨keptWidth, keptHeight⟩ := d₀.after_preserves_size accesses
  have bit {x y : Int} (has : (d₀.after accesses).Has x y) :
      (d₀.after accesses).get x y = .ok (d₀.flips x y 0 accesses % 2 == 1) := by
    have has₀ : d₀.Has x y := has.resized keptWidth.symm keptHeight.symm
    exact get_after (n := 0) has₀ (get_of_dark fresh.dark has₀) accesses
  -- With two negative sizes there are pixels, but none that could be flipped.
  have lit : (d₀.after accesses).Dark ∨ 0 < (d₀.after accesses).width := by
    by_cases wide : 0 < d₀.width
    · exact .inr (keptWidth ▸ wide)
    · exact .inl (after_dark fresh.dark (Int.not_lt.mp wide) accesses)
  generalize d₀.after accesses = d at *
  exact {
    width    := keptWidth.trans fresh.width
    height   := keptHeight.trans fresh.height
    get x y  := by
      split
      case isTrue has => exact bit has
      case isFalse off => exact get_of_not_has off
    flip     := d.flip_map_fst
    refused x y off := by simp only [perform, flip_of_not_has off]
    apart _ _ _ _ := d.get_perform_flip_other
    rowCount := by
      rw [length_rows]
      omega
    rows x y has := exists_row (bit has)
    litCount := litCount_eq_card lit
    text tall := by
      refine readText?_text fun none => ?_
      have := d.length_rows
      rw [none, List.length_nil] at this
      omega }

def someFlips : List Access :=
  [.flip 0 1, .clear, .flip 1 1, .flip 0 0, .flip 3 0, .flip 1 1, .get 1 1, .flip 2 1]

theorem small_grids_keep_bits :
    (∃ d₀, blank 6 3 2 = .ok d₀ ∧
      (d₀.after someFlips).IsGrid 3 2 (fun x y => d₀.flips x y 0 someFlips % 2 == 1) ∧
      (d₀.after someFlips).rows = [[true, false, false], [false, false, true]]) ∧
    ∃ d₀, blank 6 (-2) (-3) = .ok d₀ ∧ d₀.pixels.size = 6 ∧
      (d₀.after someFlips).IsGrid (-2) (-3) fun x y => d₀.flips x y 0 someFlips % 2 == 1 := by
  obtain ⟨made, grid⟩ := grid_of_independent_bits 3 2
  obtain ⟨made', grid'⟩ := grid_of_independent_bits (-2) (-3)
  exact ⟨⟨_, rfl, grid _ (made 6 _ rfl) _, by decide +kernel⟩, _, rfl, rfl, grid' _ (made' 6 _ rfl) _⟩

end Display
end Chip8
