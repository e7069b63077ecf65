import Mathlib.Algebra.BigOperators.Group.List.Defs
import Mathlib.Algebra.Group.Nat.Even
import Chip8.Proofs.Range
import Chip8.Proofs.Xor

namespace Chip8

-- A drawing word that is carried out with an index register and registers of its own.
structure Stroke where
  index : Int
  v : Registers
  word : Int
  isDraw : (Word.fields word).family.val = 0xD

structure Placement where
  index : Int
  x : UInt8
  y : UInt8
  height : Nat
deriving DecidableEq

def Stroke.placement (s : Stroke) : Placement where
  index := s.index
  x := s.v.get (Word.fields s.word).x
  y := s.v.get (Word.fields s.word).y
  height := (Word.fields s.word).n.val

namespace Sprite.Xors

variable {d : Display} {hits : Int × Int → Nat} {drawing drawing' : Drawing}

-- Of two drawings that hit the same pixels, the second finds those on that the first has found off.
theorem collision_iff_touched (xors : Xors d hits drawing) (xors' : Xors drawing.display hits drawing')
    (inside : ∀ p, 1 ≤ hits p → d.Has p.1 p.2) :
    drawing.collision = true ∨ drawing'.collision = true ↔ drawing.touched = true := by
  rw [xors.collision, xors'.collision, xors.touched]
  constructor
  · rintro (⟨p, hit, _⟩ | ⟨p, hit, _⟩) <;> exact ⟨p, hit⟩
  · rintro ⟨p, hit⟩
    rcases Nat.lt_or_eq_of_le hit with twice | once
    case inl => exact .inl ⟨p, hit, .inr twice⟩
    case inr =>
      obtain ⟨on, got⟩ := Display.exists_get (inside p hit)
      cases on with
      | true => exact .inl ⟨p, hit, .inl got⟩
      | false =>
        have flipped := xors.pixels p
        rw [got, ← once] at flipped
        exact .inr ⟨p, hit, .inl flipped⟩

end Sprite.Xors

namespace Machine

def poised (m : Machine) (s : Stroke) : Machine :=
  { m with index := s.index, v := s.v }

def stroke (m : Machine) (s : Stroke) : Machine :=
  ((m.poised s).execute s.word).machine

def strokes (m : Machine) (all : List Stroke) : Machine :=
  all.foldl stroke m

def Faultless (m : Machine) (word : Int) : Prop :=
  ∀ f m', m.execute word ≠ .fault f m'

def placementHits (m : Machine) (s : Placement) (p : Int × Int) : Nat :=
  Sprite.hits m.edge m.display s.x.toNat s.y.toNat (m.memory.spriteBits s.index s.height) p

variable {m m' m'' : Machine} {s : Stroke} {all : List Stroke}

theorem faultless_iff {word : Int} (isDraw : (Word.fields word).family.val = 0xD) :
    m.Faultless word ↔ Memory.blockFault? m.index (Word.fields word).n = none := by
  let i := Instruction.draw (Word.fields word).x (Word.fields word).y (Word.fields word).n
  change _ ↔ i.fault? (m.advance word) = none
  rw [Faultless, execute_of_spells (Fields.spells_draw isDraw)]
  constructor
  · intro faultless
    cases fault : i.fault? (m.advance word) with
    | none => rfl
    | some f => exact absurd (Instruction.run_of_fault fault) (faultless f _)
  · intro none f m' run
    cases none.symm.trans (Instruction.fault?_of_run run)

theorem faultless_poised (faultless : (m.poised s).Faultless s.word) (m' : Machine) :
    (m'.poised s).Faultless s.word := by
  rw [faultless_iff s.isDraw] at faultless ⊢
  exact faultless

theorem placementHits_congr (same : m.SameMake m') (memory : m'.memory = m.memory) :
    m'.placementHits = m.placementHits := by
  funext s p
  simp only [placementHits, Sprite.hits]
  rw [same.edge, memory]
  refine congrArg Finset.card (Finset.filter_congr fun b _ => ?_)
  rw [EdgeRule.target?_congr same.width same.height]

theorem hits_congr {f : Fields} (same : m.SameMake m') (memory : m'.memory = m.memory) (index : m'.index = m.index)
    (column : m'.v.get f.x = m.v.get f.x) (row : m'.v.get f.y = m.v.get f.y) : m'.hits f = m.hits f := by
  change m'.placementHits ⟨m'.index, m'.v.get f.x, m'.v.get f.y, f.n.val⟩ = _
  rw [placementHits_congr same memory, index, column, row]
  rfl

structure Paints (m : Machine) (hits : Int × Int → Nat) (m' : Machine) : Prop where
  make   : m.SameMake m'
  memory : m'.memory = m.memory
  pixels : ∀ p, m'.display.get p.1 p.2 = (m.display.get p.1 p.2).map (· ^^ (hits p % 2 == 1))

namespace Paints

variable {hits hits' : Int × Int → Nat}

theorem refl (m : Machine) : m.Paints (fun _ => 0) m where
  make     := .refl m
  memory   := rfl
  pixels p := by cases m.display.get p.1 p.2 <;> simp [Except.map]

theorem trans (h : m.Paints hits m') (h' : m'.Paints hits' m'') : m.Paints (fun p => hits p + hits' p) m'' where
  make     := h.make.trans h'.make
  memory   := h'.memory.trans h.memory
  pixels p := by
    rw [h'.pixels, h.pixels, odd_add]
    cases m.display.get p.1 p.2 <;> simp [Except.map]

theorem display_eq (h : m.Paints hits m') (h' : m.Paints hits' m'') (wide : 0 < m.display.width)
    (parity : ∀ p, hits p % 2 = hits' p % 2) : m'.display = m''.display := by
  refine Display.eq_of_get (h.make.width.trans h'.make.width.symm) (h.make.height.trans h'.make.height.symm)
    (h'.make.width ▸ wide) fun x y => ?_
  rw [h.pixels (x, y), h'.pixels (x, y), parity]

end Paints

theorem exists_stroke (fits : m.edge.Fits m.display) (faultless : (m.poised s).Faultless s.word) :
    (m.poised s).execute s.word = .done (m.stroke s) ∧ m.Paints (m.placementHits s.placement) (m.stroke s) := by
  obtain ⟨drawing, xors, done⟩ := (m.poised s).exists_drawn s.isDraw fits ((faultless_iff s.isDraw).mp faultless)
  rw [stroke, done]
  exact ⟨rfl, ⟨rfl, xors.size.left, xors.size.right, rfl⟩, rfl, xors.pixels⟩

theorem strokes_paints (fits : m.edge.Fits m.display) (faultless : ∀ s ∈ all, (m.poised s).Faultless s.word) :
    m.Paints (fun p => (all.map (m.placementHits ·.placement p)).sum) (m.strokes all) := by
  induction all generalizing m with
  | nil => exact .refl m
  | cons s rest ih =>
    have ⟨_, first⟩ := exists_stroke fits (faultless s List.mem_cons_self)
    have later := ih (first.make.fits fits) fun s' mem => faultless_poised (faultless s' (List.mem_cons_of_mem s mem)) _
    rw [placementHits_congr first.make first.memory] at later
    exact first.trans later

theorem sum_hits (m : Machine) (all : List Stroke) (place : Placement) (p : Int × Int) :
    (all.map (m.placementHits ·.placement p)).sum =
      ((all.filter (·.placement ≠ place)).map (m.placementHits ·.placement p)).sum +
        all.countP (·.placement = place) * m.placementHits place p := by
  induction all with
  | nil => simp
  | cons s rest ih =>
    rw [List.map_cons, List.sum_cons, ih]
    by_cases here : s.placement = place
    case pos =>
      rw [List.filter_cons_of_neg (by simpa using here), List.countP_cons_of_pos (by simpa using here), here,
        Nat.succ_mul]
      omega
    case neg =>
      rw [List.filter_cons_of_pos (by simpa using here), List.countP_cons_of_neg (by simpa using here),
        List.map_cons, List.sum_cons, Nat.add_assoc]

theorem exists_drawn_twice {word : Int} (isDraw : (Word.fields word).family.val = 0xD)
    (size : 1 ≤ m.display.width ∧ 1 ≤ m.display.height) (faultless : m.Faultless word)
    (hx : (Word.fields word).x ≠ flag) (hy : (Word.fields word).y ≠ flag) :
    ∃ m₁ m₂, m.execute word = .done m₁ ∧ m₁.execute word = .done m₂ ∧ m₂.display = m.display ∧ m₂.draw = m₁.draw ∧
      (m₁.v.get flag = 1 ∨ m₂.v.get flag = 1 ↔ m₁.draw = true) := by
  have fits : m.edge.Fits m.display := fun _ => size
  have inside := (faultless_iff isDraw).mp faultless
  obtain ⟨drawing, xors, done⟩ := exists_drawn isDraw fits inside
  -- After the first time the word draws the same sprite at the same place.
  let m₁ := { (m.advance word).setV flag drawing.collision.toUInt8 with
    display := drawing.display
    draw := drawing.touched }
  have first : m.Paints (m.hits (Word.fields word)) m₁ :=
    ⟨⟨rfl, xors.size.left, xors.size.right, rfl⟩, rfl, xors.pixels⟩
  have again : m₁.hits (Word.fields word) = m.hits (Word.fields word) :=
    hits_congr first.make first.memory rfl (get_setV_of_ne _ hx _) (get_setV_of_ne _ hy _)
  obtain ⟨drawing', xors', done'⟩ := exists_drawn (m := m₁) isDraw (first.make.fits fits) inside
  rw [again] at xors'
  refine ⟨m₁, _, done, done', ?display, ?draw, ?flag⟩
  case display =>
    have second : m₁.Paints (m.hits (Word.fields word)) { m₁ with display := drawing'.display } :=
      ⟨⟨rfl, xors'.size.left, xors'.size.right, rfl⟩, rfl, xors'.pixels⟩
    exact (first.trans second).display_eq (.refl m) (by omega) fun p => by omega
  case draw => exact Bool.eq_iff_iff.mpr (xors'.touched.trans xors.touched.symm)
  case flag =>
    have flagged : m₁.v.get flag = drawing.collision.toUInt8 := get_setV _ _ _
    rw [flagged, get_setV, toUInt8_eq_one_iff, toUInt8_eq_one_iff]
    exact xors.collision_iff_touched xors' fun p => has_of_hit fits

-- Strokes give one picture in whatever order they are carried out, and all of them are carried out. A sprite that is
-- drawn an even number of times at one place might as well be left out. Carried out twice in a row, a drawing word
-- restores the display, and one of the two times finds a pixel on if, and only if, there was something to draw.
theorem strokes_commute_and_cancel (size : 1 ≤ m.display.width ∧ 1 ≤ m.display.height)
    (faultless : ∀ s ∈ all, (m.poised s).Faultless s.word) :
    (∀ other : List Stroke, other.Perm all →
      (∀ past s, past ++ [s] <+: other → ∃ m', ((m.strokes past).poised s).execute s.word = .done m') ∧
      (m.strokes other).display = (m.strokes all).display) ∧
    (∀ place : Placement, Even (all.countP (·.placement = place)) →
      (m.strokes (all.filter (·.placement ≠ place))).display = (m.strokes all).display) ∧
    ∀ word, (Word.fields word).family.val = 0xD → m.Faultless word →
      (Word.fields word).x ≠ flag → (Word.fields word).y ≠ flag →
      ∃ m₁ m₂, m.execute word = .done m₁ ∧ m₁.execute word = .done m₂ ∧ m₂.display = m.display ∧ m₂.draw = m₁.draw ∧
        (m₁.v.get flag = 1 ∨ m₂.v.get flag = 1 ↔ m₁.draw = true) := by
  have fits : m.edge.Fits m.display := fun _ => size
  have painted : m.Paints _ (m.strokes all) := strokes_paints fits faultless
  refine ⟨fun other perm => ⟨fun past s start => ?carried, ?reordered⟩, fun place even => ?cancelled,
    fun word isDraw faultless => exists_drawn_twice isDraw size faultless⟩
  case carried =>
    have member (s' : Stroke) (mem : s' ∈ past ++ [s]) : (m.poised s').Faultless s'.word :=
      faultless s' (perm.subset (start.subset mem))
    have before : m.Paints _ (m.strokes past) :=
      strokes_paints fits fun s' mem => member s' (List.mem_append_left [s] mem)
    have own := faultless_poised (member s List.mem_concat_self) (m.strokes past)
    exact ⟨_, (exists_stroke (before.make.fits fits) own).left⟩
  case reordered =>
    -- Hits are summed up over the strokes, and a sum does not depend on the order.
    have painted' : m.Paints _ (m.strokes other) :=
      strokes_paints fits fun s mem => faultless s (perm.subset mem)
    exact painted'.display_eq painted (by omega) fun p => congrArg (· % 2) (perm.map _).sum_nat
  case cancelled =>
    have painted' : m.Paints _ (m.strokes (all.filter (·.placement ≠ place))) :=
      strokes_paints fits fun s mem => faultless s (List.mem_of_mem_filter mem)
    refine painted'.display_eq painted (by omega) fun p => ?_
    -- The strokes that are left out hit every pixel an even number of times.
    have cancels : Even (all.countP (·.placement = place) * m.placementHits place p) := even.mul_right _
    have := Nat.even_iff.mp cancels
    rw [m.sum_hits all place p]
    omega

def digitStroke (digit : Nat) (x y : UInt8) : Stroke where
  index := digit * Font.glyphHeight
  v := Vector.ofFn fun r => if r.val = 0 then x else if r.val = 1 then y else 0
  word := 0xD015
  isDraw := by decide

theorem wrapped_digits_cancel :
    let m := powerOn smallDisplay .wrap 16 (.cycle #[]) none
    let zero := digitStroke 0 2 1
    let one := digitStroke 1 200 255
    (1 ≤ m.display.width ∧ 1 ≤ m.display.height) ∧
      (∀ s ∈ [zero, one, zero], (m.poised s).Faultless s.word) ∧
      (m.strokes [one, zero, zero]).display = (m.strokes [zero, one, zero]).display ∧
      (m.strokes [one]).display = (m.strokes [zero, one, zero]).display ∧
      ∃ m₁ m₂, m.execute 0xD015 = .done m₁ ∧ m₁.execute 0xD015 = .done m₂ ∧ m₂.display = m.display ∧
        (m₁.v.get flag = 1 ∨ m₂.v.get flag = 1 ↔ m₁.draw = true) := by
  intro m zero one
  have size : 1 ≤ m.display.width ∧ 1 ≤ m.display.height := by decide
  have faultless : ∀ s ∈ [zero, one, zero], (m.poised s).Faultless s.word := by
    intro s mem
    rw [faultless_iff s.isDraw]
    revert s
    decide +kernel
  obtain ⟨commute, cancel, twice⟩ := strokes_commute_and_cancel size faultless
  have alone := cancel zero.placement ⟨1, by decide +kernel⟩
  have drawn : m.Faultless 0xD015 := (faultless_iff (by decide)).mpr (by decide +kernel)
  obtain ⟨m₁, m₂, first, second, restored, _, found⟩ := twice 0xD015 (by decide) drawn (by decide) (by decide)
  exact ⟨size, faultless, (commute _ (.swap zero one [zero])).right, alone, m₁, m₂, first, second, restored, found⟩

end Machine
end Chip8
