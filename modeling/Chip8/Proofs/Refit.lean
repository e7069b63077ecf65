import Chip8.Proofs.CallStack

namespace Chip8

-- An exchange of the edge rule, and `room` more entries on the stack.
structure Refit where
  edge : EdgeRule → EdgeRule := id
  room : Nat := 0

def Machine.refit (m : Machine) (f : Refit) : Machine :=
  { m with edge := f.edge m.edge, stack := m.stack ++ Array.replicate f.room 0 }

def Execution.refit (f : Refit) : Execution → Execution
  | done m    => .done (m.refit f)
  | fault e m => .fault e (m.refit f)
  | crash c m => .crash c (m.refit f)

def Turn.refit (f : Refit) (t : Turn) : Turn :=
  { t with machine := t.machine.refit f }

namespace Instruction

def looksAtMake : Instruction → Bool
  | ret | call _ | draw _ _ _ => true
  | _                         => false

end Instruction

namespace Machine

variable {f : Refit} {m : Machine} {requests : List Request}

theorem combine_refit (op : Operation) (x y : Register) : (m.refit f).combine op x y = (m.combine op x y).refit f := by
  simp only [combine, refit]
  cases op.carry? m.v[x] m.v[y] <;> rfl

theorem writeMemory_refit (block : List UInt8) : (m.refit f).writeMemory block = (m.writeMemory block).refit f := by
  simp only [writeMemory, refit]
  cases m.memory.writeBlock m.index block <;> rfl

theorem loadRegisters_refit (x : Register) : (m.refit f).loadRegisters x = (m.loadRegisters x).refit f := by
  simp only [loadRegisters, refit]
  cases m.memory.readBlock m.index (x + 1) <;> rfl

theorem holds_refit (condition : Condition) : condition.holds (m.refit f) = condition.holds m := by
  cases condition <;> rfl

theorem lowestKey?_refit : (m.refit f).lowestKey? = m.lowestKey? :=
  rfl

theorem run_refit {i : Instruction} (h : i.looksAtMake = false) : i.run (m.refit f) = (i.run m).refit f := by
  cases i
  case ret | call | draw => cases h
  case skip condition =>
    simp only [Instruction.run, holds_refit]
    cases condition.holds m <;> rfl
  case awaitKey x =>
    simp only [Instruction.run, lowestKey?_refit]
    cases m.lowestKey? <;> rfl
  case combine op x y => exact congrArg Execution.done (combine_refit op x y)
  case storeDecimal x => exact writeMemory_refit (decimalDigits m.v[x])
  case store x => exact writeMemory_refit (m.v.toList.take (x + 1))
  case load x => exact loadRegisters_refit x
  all_goals rfl

theorem size_refit : (m.refit f).stack.size = m.stack.size + f.room := by
  simp only [refit, Array.size_append, Array.size_replicate]

theorem ret_refit (sp : 0 ≤ m.sp ∧ m.sp ≤ m.stack.size) : (m.refit f).ret = m.ret.refit f := by
  obtain ⟨n, top⟩ := Int.eq_ofNat_of_zero_le sp.left
  cases n with
  | zero =>
    have closed : m.sp = 0 := top
    rw [ret, ret, if_pos closed, if_pos (show (m.refit f).sp = 0 from closed)]
    rfl
  | succ n =>
    have inside : n < m.stack.size := by omega
    have inside' : n < (m.refit f).stack.size := by rw [size_refit]; omega
    rw [ret_of_lt top inside, ret_of_lt (m := m.refit f) top inside']
    simp [Execution.refit, refit, Array.getElem_append_left inside]

theorem call_refit (low : 0 ≤ m.sp) (free : f.room = 0 ∨ m.sp < m.stack.size) (target : Fin 4096) :
    (m.refit f).call target = (m.call target).refit f := by
  by_cases full : m.stack.size ≤ m.sp
  case pos =>
    have full' : (m.refit f).stack.size ≤ (m.refit f).sp := by
      have same : (m.refit f).sp = m.sp := rfl
      rw [size_refit, same]
      omega
    rw [call, call, if_pos full, if_pos full']
    rfl
  case neg =>
    obtain ⟨n, top⟩ := Int.eq_ofNat_of_zero_le low
    have inside : n < m.stack.size := by omega
    have inside' : n < (m.refit f).stack.size := by rw [size_refit]; omega
    rw [call_of_lt target top inside, call_of_lt (m := m.refit f) target top inside']
    simp [Execution.refit, refit, Array.set_append_left inside]

theorem drawSprite_refit {x y : Register} {height : Fin 16}
    (same : ∀ rows, m.memory.readBlock m.index height = .ok rows →
      Sprite.draw (f.edge m.edge) m.display (m.v.get x).toNat (m.v.get y).toNat rows =
        Sprite.draw m.edge m.display (m.v.get x).toNat (m.v.get y).toNat rows) :
    (m.refit f).drawSprite x y height = (m.drawSprite x y height).refit f := by
  change ∀ rows, _ → Sprite.draw (f.edge m.edge) m.display m.v[x].toNat m.v[y].toNat rows = _ at same
  simp only [drawSprite, refit]
  cases read : m.memory.readBlock m.index height with
  | error e => rfl
  | ok rows =>
    simp only [same rows read]
    cases Sprite.draw m.edge m.display (m.v.get x).toNat (m.v.get y).toNat rows <;> rfl

def KeepsCourse (f : Refit) (m : Machine) : Prop :=
  ∀ w i, Word.fetch m.memory.bytes m.pc = .ok w → Instruction.ofWord? w.toNat = some i → i.looksAtMake →
    i.run ((m.advance w.toNat).refit f) = (i.run (m.advance w.toNat)).refit f

theorem KeepsCourse.execute {w : UInt16} (h : m.KeepsCourse f) (fetch : Word.fetch m.memory.bytes m.pc = .ok w) :
    (m.refit f).execute w.toNat = (m.execute w.toNat).refit f := by
  cases decode : Instruction.ofWord? w.toNat with
  | none =>
    rw [execute_of_no_instruction decode, execute_of_no_instruction decode]
    rfl
  | some i =>
    rw [execute_of_instruction decode, execute_of_instruction decode]
    cases looks : i.looksAtMake with
    | true => exact h w i fetch decode looks
    | false => exact run_refit (m := m.advance w.toNat) looks

theorem fail_refit (start : Int) (word : Option UInt16) (e : Fault) :
    (m.refit f).fail start word e = (m.fail start word e).refit f := by
  cases e <;> rfl

theorem KeepsCourse.step (h : m.KeepsCourse f) : (m.refit f).step = m.step.refit f := by
  cases fetch : Word.fetch m.memory.bytes m.pc with
  | error e =>
    rw [step_of_unread fetch, step_of_unread (m := m.refit f) fetch]
    exact fail_refit (m := { m with draw := false }) m.pc none e
  | ok w =>
    have execute := h.execute fetch
    cases run : m.execute w.toNat with
    | done m' =>
      rw [run] at execute
      rw [step_of_done fetch run, step_of_done (m := m.refit f) fetch execute]
      rfl
    | fault e m' =>
      rw [run] at execute
      rw [step_of_fault fetch run, step_of_fault (m := m.refit f) fetch execute]
      exact fail_refit m.pc w e
    | crash c m' =>
      rw [run] at execute
      rw [step_of_crash fetch run, step_of_crash (m := m.refit f) fetch execute]
      rfl

theorem load_refit (image : List UInt8) :
    (m.refit f).orSame (((m.refit f).load image).map Prod.fst) = (m.orSame ((m.load image).map Prod.fst)).refit f := by
  simp only [load]
  split <;> rfl

theorem loadNumbers_refit (values : List Int) :
    (m.refit f).orSame (((m.refit f).loadNumbers values).map Prod.fst) =
      (m.orSame ((m.loadNumbers values).map Prod.fst)).refit f := by
  simp only [loadNumbers]
  split
  · cases bytes? values with
    | some image => exact load_refit image
    | none => rfl
  · rfl

theorem loadRom_refit (path : FileName) (file : RomFile) :
    (m.refit f).orSame (((m.refit f).loadRom path file).map Prod.fst) =
      (m.orSame ((m.loadRom path file).map Prod.fst)).refit f := by
  simp only [loadRom]
  split
  · rfl
  · cases file with
    | contents image => exact load_refit image
    | _ => rfl

theorem setKeys_refit (states : Array Bool) :
    (m.refit f).orSame ((m.refit f).setKeys states) = (m.orSame (m.setKeys states)).refit f := by
  simp only [setKeys]
  split <;> rfl

theorem setKey_refit (k : Int) (down : Bool) :
    (m.refit f).orSame ((m.refit f).setKey k down) = (m.orSame (m.setKey k down)).refit f := by
  simp only [setKey]
  cases Index.entry 16 k <;> rfl

theorem write_refit (address value : Int) :
    (m.refit f).orSame ((m.refit f).write address value) = (m.orSame (m.write address value)).refit f := by
  simp only [write, refit]
  cases m.memory.write address (UInt8.ofNat value.toNat) with
  | error e => rfl
  | ok memory =>
    dsimp only
    split <;> rfl

theorem reset_refit : (m.refit f).reset = m.reset.refit f := by
  simp only [reset, refit, Array.size_append, Array.size_replicate, Array.replicate_append_replicate]

theorem serve_refit {r : Request} (other : r ≠ .step) : (m.refit f).serve r = (m.serve r).refit f := by
  cases r with
  | step => contradiction
  | reset => exact reset_refit
  | load image => exact load_refit image
  | loadNumbers values => exact loadNumbers_refit values
  | loadRom path file => exact loadRom_refit path file
  | setKeys states => exact setKeys_refit states
  | press k => exact setKey_refit k true
  | release k => exact setKey_refit k false
  | write address value => exact write_refit address value
  | tick | read | checkRange => rfl

theorem run_refits (h : ∀ s ∈ m.starts requests, s.KeepsCourse f) :
    (m.refit f).after requests = (m.after requests).refit f ∧
      (m.refit f).starts requests = (m.starts requests).map (·.refit f) := by
  induction requests generalizing m with
  | nil => exact ⟨rfl, rfl⟩
  | cons r rest ih =>
    by_cases isStep : r = .step
    case pos =>
      subst isStep
      have first : (m.refit f).step.machine = m.step.machine.refit f :=
        congrArg Turn.machine (h m List.mem_cons_self).step
      have ⟨after, starts⟩ := ih fun s mem => h s (List.mem_cons_of_mem m mem)
      constructor
      · change ((m.refit f).step.machine).after rest = _
        rw [first, after]
        rfl
      · change m.refit f :: ((m.refit f).step.machine).starts rest = _
        rw [first, starts]
        rfl
    case neg =>
      rw [starts_of_ne_step isStep] at h
      rw [starts_of_ne_step isStep, starts_of_ne_step isStep, serve_refit isStep]
      have ⟨after, starts⟩ := ih h
      refine ⟨?_, starts⟩
      change ((m.refit f).serve r).after rest = _
      rw [serve_refit isStep, after]
      rfl

theorem after_refit (h : ∀ s ∈ m.starts requests, s.KeepsCourse f) {past : List Request} (start : past <+: requests) :
    (m.refit f).after past = (m.after past).refit f := by
  obtain ⟨rest, rfl⟩ := start
  rw [starts_append] at h
  exact (run_refits fun s mem => h s (List.mem_append_left _ mem)).left

theorem results_refit (h : ∀ s ∈ m.starts requests, s.KeepsCourse f) :
    (m.refit f).results requests = m.results requests := by
  rw [results, results, (run_refits h).right, List.map_map]
  refine List.map_congr_left fun s mem => ?_
  change (s.refit f).step.result = s.step.result
  rw [(h s mem).step]
  rfl

end Machine
end Chip8
