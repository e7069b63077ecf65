import Mathlib.Logic.ExistsUnique
import Chip8.Keyboard
import Chip8.Proofs.Run

namespace Chip8

-- The state in which a request leaves the key `j`, if it succeeds and concerns this key. A snapshot needs sixteen
-- states and then concerns all keys. A single key is named by its number or, from below zero, by sixteen less than it.
def Request.leaves? (j : Fin 16) : Request → Option Bool
  | setKeys states => if states.size = 16 then states[j.val]? else none
  | press k        => if (-16 ≤ k ∧ k ≤ 15) ∧ k % 16 = j.val then some true else none
  | release k      => if (-16 ≤ k ∧ k ≤ 15) ∧ k % 16 = j.val then some false else none
  | reset          => some false
  | _              => none

namespace Machine

variable {m : Machine} {j : Fin 16}

theorem step_preserves_keys (m : Machine) : m.step.machine.keys = m.keys := by
  have course := m.course
  generalize m.step = t at course ⊢
  cases course with
  | stuck | unknown => rfl
  | crash _ _ run | done _ _ run =>
    exact Instruction.run_preserves_unwritten run (by decide : Part.keys ∈ Instruction.unwritten)

theorem get_keys_setKeys (m : Machine) (states : Array Bool) (j : Fin 16) :
    (m.orSame (m.setKeys states)).keys.get j = ((Request.setKeys states).leaves? j).getD (m.keys.get j) := by
  by_cases size : states.size = 16
  case pos =>
    have inside : j.val < states.size := by omega
    simp only [setKeys, dif_pos size, Request.leaves?, if_pos size, Array.getElem?_eq_getElem inside]
    rfl
  case neg =>
    simp only [setKeys, dif_neg size, Request.leaves?, if_neg size]
    rfl

theorem exists_setKey_iff (m : Machine) (k : Int) (down : Bool) :
    (∃ m', m.setKey k down = .ok m') ↔ -16 ≤ k ∧ k ≤ 15 := by
  have named : (∃ key, Index.entry 16 k = .ok key) ↔ -16 ≤ k ∧ k < 16 := Index.entry_eq_ok_iff
  have bound : k < 16 ↔ k ≤ 15 := by omega
  rw [← bound, ← named, setKey]
  cases Index.entry 16 k <;> simp

theorem get_keys_setKey (m : Machine) (k : Int) (down : Bool) (j : Fin 16) :
    (m.orSame (m.setKey k down)).keys.get j =
      (if (-16 ≤ k ∧ k ≤ 15) ∧ k % 16 = j.val then some down else none).getD (m.keys.get j) := by
  by_cases named : -16 ≤ k ∧ k ≤ 15
  case pos =>
    have entry : Index.entry 16 k = .ok ⟨(k % 16).toNat, by omega⟩ := dif_pos (by omega)
    simp only [setKey, entry, orSame]
    by_cases here : k % 16 = j.val
    case pos =>
      rw [if_pos ⟨named, here⟩]
      have isKey : (k % 16).toNat = j.val := by omega
      simp only [isKey]
      exact Vector.getElem_set_self j.isLt
    case neg =>
      rw [if_neg (mt And.right here)]
      exact Vector.getElem_set_ne _ j.isLt (by omega)
  case neg =>
    cases set : m.setKey k down with
    | ok m' => exact absurd ((m.exists_setKey_iff k down).mp ⟨m', set⟩) named
    | error => rw [if_neg (mt And.left named)]; rfl

theorem get_keys_serve (m : Machine) (r : Request) (j : Fin 16) :
    (m.serve r).keys.get j = (r.leaves? j).getD (m.keys.get j) := by
  by_cases onMemory : r.onMemory
  case pos =>
    have ⟨memory, served⟩ := m.serve_on_memory onMemory
    rw [served]
    cases r <;> first | rfl | cases onMemory
  case neg =>
    cases r with
    | step           => exact congrArg (·.get j) m.step_preserves_keys
    | setKeys states => exact m.get_keys_setKeys states j
    | press k        => exact m.get_keys_setKey k true j
    | release k      => exact m.get_keys_setKey k false j
    | reset          => exact Vector.getElem_replicate j.isLt
    | tick           => rfl
    | _              => exact absurd rfl onMemory

theorem get_keys_after (m : Machine) (requests : List Request) (j : Fin 16) :
    (m.after requests).keys.get j = (requests.reverse.findSome? (·.leaves? j)).getD (m.keys.get j) := by
  induction requests generalizing m with
  | nil => rfl
  | cons r rest ih =>
    -- The first request only counts for keys that no later one concerns.
    have later : (m.after (r :: rest)).keys.get j = _ := ih (m.serve r)
    rw [later, get_keys_serve, List.reverse_cons, List.findSome?_append]
    cases rest.reverse.findSome? (·.leaves? j) with
    | some down => rfl
    | none      => cases left : r.leaves? j <;> simp [left]

theorem exists_setKeys_iff (m : Machine) (states : Array Bool) :
    (∃ m', m.setKeys states = .ok m') ↔ states.size = 16 := by
  simp only [setKeys]
  split <;> simp_all

theorem serve_of_refused {r : Request} (onKeys : r.onKeys) (refused : ∀ j, r.leaves? j = none) : m.serve r = m := by
  have ⟨keys, served⟩ := m.serve_on_keys onKeys
  have same : keys = m.keys := by
    have kept (j : Fin 16) : (m.serve r).keys.get j = m.keys.get j := by
      rw [get_keys_serve, refused j, Option.getD_none]
    rw [served] at kept
    exact Vector.ext fun i h => kept ⟨i, h⟩
  rw [served, same]

def PutDown (requests : List Request) (j : Fin 16) : Prop :=
  ∃ past r later, requests = past ++ r :: later ∧ r.leaves? j = some true ∧ ∀ r' ∈ later, r'.leaves? j = none

theorem findSome?_reverse_iff {requests : List Request} :
    requests.reverse.findSome? (·.leaves? j) = some true ↔ PutDown requests j := by
  rw [List.findSome?_eq_some_iff]
  constructor
  case mp =>
    rintro ⟨later, r, past, split, down, unconcerned⟩
    refine ⟨past.reverse, r, later.reverse, ?_, down, fun r' mem => unconcerned r' (List.mem_reverse.mp mem)⟩
    simpa using congrArg List.reverse split
  case mpr =>
    rintro ⟨past, r, later, rfl, down, unconcerned⟩
    refine ⟨later.reverse, r, past.reverse, by simp, down, fun r' mem => unconcerned r' (List.mem_reverse.mp mem)⟩

theorem powerOn_keys (display : Display) (edge : EdgeRule) (stackSize : Nat) (random : RandomSource)
    (speaker : Option Nat) (j : Fin 16) : (powerOn display edge stackSize random speaker).keys.get j = false :=
  Vector.getElem_replicate j.isLt

theorem withKeys_sameBut (m : Machine) (states : Vector Bool 16) : m.SameBut [.keys] (m.withKeys states) := by
  intro p other
  cases p
  case keys => exact absurd List.mem_cons_self other
  all_goals rfl

theorem get_snapshot (m : Machine) (pressed : KeyCode → Bool) (j : Fin 16) :
    (m.withKeys (Keyboard.states pressed)).keys.get j = pressed (Keyboard.code j) :=
  Keyboard.getElem_states pressed j

theorem existsUnique_key {pressed pressed' : KeyCode → Bool}
    (single : ∃! key, (∃ j, Keyboard.code j = key) ∧ pressed' key ≠ pressed key) :
    ∃! j, pressed' (Keyboard.code j) ≠ pressed (Keyboard.code j) := by
  obtain ⟨_, ⟨⟨j, rfl⟩, differs⟩, only⟩ := single
  exact ⟨j, differs, fun j' differs' => Keyboard.code_injective (only _ ⟨⟨j', rfl⟩, differs'⟩)⟩

-- Whatever a machine is asked for after it was switched on, a key is down if the last request that concerns it has put
-- it down, and requests that fail change nothing. So a snapshot of the keyboard leaves nothing of what was pressed
-- before, and each key follows its own keyboard key.
theorem keys_follow_last_writer (display : Display) (edge : EdgeRule) (stackSize : Nat) (random : RandomSource)
    (speaker : Option Nat) :
    (∀ (requests : List Request) (j : Fin 16),
      ((powerOn display edge stackSize random speaker).after requests).keys.get j = true ↔ PutDown requests j) ∧
    (∀ (m : Machine) (states : Array Bool), (∃ m', m.setKeys states = .ok m') ↔ states.size = 16) ∧
    (∀ (m : Machine) (k : Int),
      ((∃ m', m.press k = .ok m') ↔ -16 ≤ k ∧ k ≤ 15) ∧ ((∃ m', m.release k = .ok m') ↔ -16 ≤ k ∧ k ≤ 15)) ∧
    (∀ (m : Machine) (r : Request), r.onKeys → (∀ j, r.leaves? j = none) → m.serve r = m) ∧
    ∀ (m : Machine) (before : Vector Bool 16) (pressed pressed' : KeyCode → Bool), ∃ held held',
      m.setKeys (Keyboard.states pressed).toArray = .ok held ∧
        (m.withKeys before).setKeys (Keyboard.states pressed').toArray = .ok held' ∧
        m.SameBut [.keys] held ∧ (∀ j, held.keys.get j = pressed (Keyboard.code j)) ∧
        ((∀ j, pressed' (Keyboard.code j) = pressed (Keyboard.code j)) → held' = held) ∧
        ((∃! key, (∃ j, Keyboard.code j = key) ∧ pressed' key ≠ pressed key) →
          held.SameBut [.keys] held' ∧ ∃! j, held'.keys.get j ≠ held.keys.get j) := by
  refine ⟨fun requests j => ?last, exists_setKeys_iff,
    fun m k => ⟨m.exists_setKey_iff k true, m.exists_setKey_iff k false⟩,
    fun m r => serve_of_refused, fun m before pressed pressed' => ?keyboard⟩
  case last =>
    rw [get_keys_after, powerOn_keys, ← findSome?_reverse_iff]
    cases requests.reverse.findSome? (·.leaves? j) <;> simp
  case keyboard =>
    refine ⟨m.withKeys (Keyboard.states pressed), m.withKeys (Keyboard.states pressed'), m.setKeys_toArray _,
      (m.withKeys before).setKeys_toArray _, m.withKeys_sameBut _, m.get_snapshot pressed, fun agree => ?_,
      fun single => ?_⟩
    · have same : Keyboard.states pressed' = Keyboard.states pressed := congrArg Vector.ofFn (funext agree)
      rw [same]
    · simp only [get_snapshot]
      exact ⟨(m.withKeys (Keyboard.states pressed)).withKeys_sameBut _, existsUnique_key single⟩

def pressing : List Request :=
  [.setKeys (Array.replicate 16 false), .press (-13), .release 19, .setKeys #[false], .release 2, .step]

theorem third_key_stays_down :
    let m := powerOn .standard .clip 16 (.cycle #[]) none
    (m.after pressing).keys.get 3 = true ∧ m.serve (.release 19) = m ∧
      ∃ held held', m.setKeys (Keyboard.states fun _ => false).toArray = .ok held ∧
        (m.withKeys (.replicate 16 true)).setKeys (Keyboard.states (· == 'q'.toNat)).toArray = .ok held' ∧
        ∃! j, held'.keys.get j ≠ held.keys.get j := by
  intro m
  obtain ⟨last, _, _, failed, keyboard⟩ := keys_follow_last_writer .standard .clip 16 (.cycle #[]) none
  have putDown : PutDown pressing 3 :=
    ⟨[.setKeys (Array.replicate 16 false)], .press (-13), _, rfl, by decide, by decide⟩
  have single : ∃! key, (∃ j, Keyboard.code j = key) ∧ (key == 'q'.toNat) ≠ false :=
    ⟨'q'.toNat, ⟨⟨4, rfl⟩, by decide⟩, fun key differs => by simpa using differs.right⟩
  obtain ⟨held, held', set, set', _, _, _, differ⟩ :=
    keyboard m (.replicate 16 true) (fun _ => false) (· == 'q'.toNat)
  exact ⟨(last pressing 3).mpr putDown, failed m _ rfl (by decide), held, held', set, set', (differ single).right⟩

end Machine
end Chip8
