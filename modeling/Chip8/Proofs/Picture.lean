import Mathlib.Control.Monad.Basic
import Chip8.Proofs.Passes
import Chip8.Proofs.Run

namespace Chip8

theorem Instruction.run_preserves_display {m : Machine} (i : Instruction) (before : m.draw = false)
    (silent : ∀ m', i.run m = .done m' → m'.draw = false) : (i.run m).machine.display = m.display := by
  by_cases h : Part.pixels ∈ i.writes
  case neg => exact run_frame m i _ h
  case pos =>
    cases i <;> simp [writes] at h
    case clear => cases silent _ rfl
    case draw x y height =>
      cases m.draw_cases x y height with
      | @drawn _ drawing _ _ drew hr =>
        have untouched : (m.draw || drawing.touched) = false := silent _ hr
        rw [before, Bool.false_or] at untouched
        rw [run, hr]
        exact Sprite.draw_untouched drew untouched
      | fault _ hr | refused _ _ _ hr =>
        rw [run, hr]
        rfl

namespace Machine

variable {m : Machine}

theorem withKeys_keeps_display (m : Machine) (states : Vector Bool 16) :
    (m.withKeys states).display = m.display :=
  rfl

theorem step_preserves_display (silent : ∀ c, m.step.result = .ok c → c.draw = false) :
    m.step.machine.display = m.display := by
  have course := m.course
  generalize m.step = t at course silent ⊢
  cases course with
  | stuck | unknown => rfl
  | @crash w i _ _ _ _ run =>
    have same := i.run_preserves_display (m := m.advance w.toNat) rfl fun _ hd => nomatch run.symm.trans hd
    rw [run] at same
    exact same
  | @done w i _ _ _ run =>
    have same := i.run_preserves_display (m := m.advance w.toNat) rfl fun _ hd => by
      cases run.symm.trans hd
      exact silent _ rfl
    rw [run] at same
    exact same

end Machine

def Window.painting (w : Window) (d : Display) : List Command :=
  .fill .off :: d.litPixels.map fun (x, y) => w.paint x y .on

theorem Display.mem_pixels_of_mem_row {d : Display} {row : List Bool} {on : Bool} (hr : row ∈ d.rows)
    (h : on ∈ row) : on ∈ d.pixels := by
  have ⟨y, _, hy⟩ := List.mem_map.mp hr
  subst hy
  have ⟨_, _, at_k⟩ := Array.mem_extract_iff_getElem.mp (Array.mem_toList_iff.mp h)
  exact at_k ▸ Array.getElem_mem _

theorem Display.litPixels_eq_nil {d : Display} (off : ∀ on ∈ d.pixels, on = false) : d.litPixels = [] := by
  refine List.flatMap_eq_nil_iff.mpr fun ⟨row, y⟩ hr => ?_
  refine List.map_eq_nil_iff.mpr (List.filter_eq_nil_iff.mpr fun ⟨on, x⟩ hx lit => ?_)
  have := off on (mem_pixels_of_mem_row (List.fst_mem_of_mem_zipIdx hr) (List.fst_mem_of_mem_zipIdx hx))
  simp_all

-- The window as it is painted: what was painted since it was last filled, and what of this was to be seen
-- when it was last shown.
structure Canvas where
  painted : List Command
  shown   : List Command

namespace Canvas

def untouched : Canvas :=
  ⟨[], []⟩

def act (c : Canvas) : Action → Canvas
  | .window (.fill colour)                    => { c with painted := [.fill colour] }
  | .window (.rect left top width height colour) =>
    { c with painted := c.painted ++ [.rect left top width height colour] }
  | .window .flip                             => { c with shown := c.painted }
  | _                                         => c

def after (c : Canvas) (actions : List Action) : Canvas :=
  actions.foldl act c

variable {c : Canvas}

theorem after_cons (a : Action) (rest : List Action) : c.after (a :: rest) = (c.act a).after rest :=
  rfl

theorem after_append (xs ys : List Action) : c.after (xs ++ ys) = (c.after xs).after ys :=
  List.foldl_append

theorem after_of_no_window {actions : List Action} (h : ∀ command, .window command ∉ actions) :
    c.after actions = c := by
  induction actions with
  | nil => rfl
  | cons a rest ih =>
    have here : c.act a = c := by
      cases a
      case window command => exact absurd List.mem_cons_self (h command)
      all_goals rfl
    rw [after_cons, here]
    exact ih fun command hc => h command (List.mem_cons_of_mem a hc)

theorem after_paint (w : Window) (colour : Colour) (pixels : List (Nat × Nat)) :
    c.after (pixels.map fun p => .window (w.paint p.1 p.2 colour)) =
      { c with painted := c.painted ++ pixels.map fun p => w.paint p.1 p.2 colour } := by
  induction pixels generalizing c with
  | nil => simp [after]
  | cons p rest ih =>
    rw [List.map_cons, after_cons, ih]
    simp [act, Window.paint]

theorem after_render (w : Window) (d : Display) :
    c.after ((w.renderCommands d).map .window) = ⟨w.painting d, w.painting d⟩ := by
  have parts : (w.renderCommands d).map Action.window =
      .window (.fill .off) :: ((d.litPixels.map fun p => .window (w.paint p.1 p.2 .on)) ++ [.window .flip]) := by
    simp [Window.renderCommands]
  rw [parts, after_cons, after_append, after_paint]
  rfl

end Canvas

def PassResult.Shows (r : PassResult) : Prop :=
  .window .flip ∈ r.actions

instance (r : PassResult) : Decidable r.Shows :=
  inferInstanceAs (Decidable (_ ∈ _))

namespace Emulator

def picture (first : Display) (passed : List PassResult) : Display :=
  passed.foldl (fun seen r => if r.Shows then r.machine.display else seen) first

theorem picture_of_shows {r : PassResult} (shows : r.Shows) (seen : Display) :
    picture seen [r] = r.machine.display :=
  if_pos shows

theorem picture_of_not_shows {r : PassResult} (quiet : ¬r.Shows) (seen : Display) : picture seen [r] = seen :=
  if_neg quiet

structure Fresh (e : Emulator) (seen : Display) (c : Canvas) : Prop where
  picture : seen = e.machine.display
  canvas  : c.shown = e.window.painting e.machine.display

variable {e : Emulator} {seen : Display} {c : Canvas}

theorem pass_shows_or_keeps (e : Emulator) (p : Pass) :
    (e.pass p).actions = e.showDisplay (e.pass p).machine ++ [.tick e.rate] ∨
    (∀ command, .window command ∉ (e.pass p).actions) ∧ (e.pass p).machine.display = e.machine.display := by
  have same := (e.machine.withKeys (Keyboard.states p.pressed)).step_preserves_display
  rw [Machine.withKeys_keeps_display] at same
  unfold pass
  generalize (e.machine.withKeys (Keyboard.states p.pressed)).step = turn at same ⊢
  cases result : turn.result with
  | error crash =>
    right
    simp [result, same]
  | ok c =>
    cases draw : c.draw with
    | true  =>
      left
      simp [result, draw]
    | false =>
      right
      simp [result, draw, same]

theorem Fresh.pass (h : e.Fresh seen c) (p : Pass) :
    (e.after (e.pass p)).Fresh (Emulator.picture seen [e.pass p]) (c.after (e.pass p).actions) := by
  rcases e.pass_shows_or_keeps p with actions | ⟨quiet, same⟩
  case inl =>
    have shows : (e.pass p).Shows := by
      simp only [PassResult.Shows]
      rw [actions]
      simp [showDisplay, Window.renderCommands]
    refine ⟨picture_of_shows shows seen, ?_⟩
    rw [actions, Canvas.after_append, showDisplay, Canvas.after_render]
    rfl
  case inr =>
    refine ⟨(picture_of_not_shows (quiet .flip) seen).trans (h.picture.trans same.symm), ?_⟩
    rw [Canvas.after_of_no_window quiet, h.canvas]
    exact congrArg e.window.painting same.symm

theorem Fresh.results (h : e.Fresh seen c) {passes : List Pass} {past : List PassResult} {r : PassResult}
    (passed : past ++ [r] <+: e.results passes) :
    (e.after r).Fresh (Emulator.picture seen (past ++ [r])) (c.after ((past ++ [r]).flatMap (·.actions))) := by
  -- The passes before `r` are gone through one by one, and each hands on what was shown and painted so far.
  induction past generalizing e seen c passes with
  | nil =>
    have ⟨p, _, first, _⟩ := e.results_eq_cons passes
    rw [first] at passed
    obtain ⟨rfl, _⟩ := List.cons_prefix_cons.mp passed
    simpa using h.pass p
  | cons r' past ih =>
    have ⟨p, tail, first, goesOn⟩ := e.results_eq_cons passes
    rw [first] at passed
    obtain ⟨rfl, further⟩ := List.cons_prefix_cons.mp passed
    rcases goesOn with rfl | ⟨rest, rfl⟩
    · simp at further
    · rw [List.cons_append, List.flatMap_cons, Canvas.after_append]
      exact ih (e := e.after (e.pass p)) (h.pass p) further

theorem initialMachine_display (settings : CommandLine.Settings) (random : RandomSource) :
    (initialMachine settings random).display = .standard := by
  simp [initialMachine, Machine.powerOn, Display.clear, Display.standard]

theorem boot_display {settings : CommandLine.Settings} {random : RandomSource} {rom : RomFile}
    {notices : List Notice} (loads : boot settings random rom = .ok (e, notices)) :
    e.machine.display = .standard := by
  have ⟨memory, loaded⟩ := (initialMachine settings random).loadRom_writes_memory settings.rom rom
  simp only [boot] at loads
  cases load : (initialMachine settings random).loadRom settings.rom rom with
  | error _ =>
    rw [load] at loads
    cases loads
  | ok loadedWith =>
    rw [load] at loads loaded
    cases loads
    have kept : loadedWith.1 = { initialMachine settings random with memory } := loaded
    rw [kept]
    exact initialMachine_display settings random

theorem opening_shown (w : Window) :
    (Canvas.untouched.after (.start :: w.openCommands.map .window)).shown = w.painting .standard := by
  have off : Display.standard.litPixels = [] := by
    refine Display.litPixels_eq_nil fun on h => ?_
    exact Array.eq_of_mem_replicate h
  rw [Window.painting, off]
  rfl

-- After every pass the window shows the display as it is, both as it was when it was last shown, with all
-- pixels off at first, and as far as can be told from what was done to the window. A cycle that reports no
-- drawing has not changed a pixel.
theorem window_never_stale {settings : CommandLine.Settings} {random : RandomSource} {rom : RomFile}
    {notices : List Notice} (loads : boot settings random rom = .ok (e, notices)) (passes : List Pass) :
    let opening := Action.start :: e.window.openCommands.map .window
    let passed := { e with window := e.window.opened }.results passes
    (run settings random rom passes).actions = opening ++ passed.flatMap (·.actions) ++ [.quit] ∧
      (∀ past r, past ++ [r] <+: passed →
        picture .standard (past ++ [r]) = r.machine.display ∧
        (Canvas.untouched.after (opening ++ (past ++ [r]).flatMap (·.actions))).shown =
          e.window.painting r.machine.display) ∧
      ∀ (m : Machine) (c : Cycle), m.step.result = .ok c → c.draw = false →
        m.step.machine.display = m.display := by
  intro opening passed
  refine ⟨?actions, fun past r prior => ?fresh, fun m c result draw => ?silent⟩
  case actions =>
    simp only [run, loads, Record.after, loop_actions]
    exact (List.append_assoc ..).symm
  case fresh =>
    have display := boot_display loads
    have first : { e with window := e.window.opened }.Fresh .standard (Canvas.untouched.after opening) :=
      ⟨display.symm, display.symm ▸ opening_shown e.window⟩
    have fresh := first.results prior
    rw [Canvas.after_append]
    exact ⟨fresh.picture, fresh.canvas⟩
  case silent =>
    refine m.step_preserves_display fun c' result' => ?_
    cases result.symm.trans result'
    exact draw

def drawnOnce : List UInt8 := [0xD0, 0x05, 0x60, 0x01]

theorem digit_is_seen :
    ∃ e notices drawn silent,
      boot (.ofRom "digit") (.cycle #[]) (.contents drawnOnce) = .ok (e, notices) ∧
      { e with window := e.window.opened }.results [{}] = [drawn, silent] ∧
      drawn.report = .ok { word := some 0xD005, fault := none, draw := true, tone := false } ∧
      silent.report = .ok { word := some 0x6001, fault := none, draw := false, tone := false } ∧
      silent.machine.display.get 3 4 = .ok true ∧
      picture .standard [drawn, silent] = silent.machine.display ∧
      (Canvas.untouched.after (.start :: e.window.openCommands.map .window ++
        [drawn, silent].flatMap (·.actions))).shown = e.window.painting silent.machine.display := by
  have fits : drawnOnce.length ≤ Memory.programLimit := by decide
  have loads := boot_contents (.ofRom "digit") (.cycle #[]) (by decide) fits
  refine ⟨_, _, _, _, loads, results_of_no_ending ?goesOn [], ?_, ?_, ?_, ?seen⟩
  case goesOn => decide +kernel
  case seen =>
    refine (window_never_stale loads [{}]).right.left [_] _ ?_
    rw [results_of_no_ending (by decide +kernel)]
    exact List.prefix_refl _
  all_goals decide +kernel

end Emulator
end Chip8
