import Chip8.Proofs.Faults
import Chip8.Proofs.Range
import Chip8.Proofs.Words

namespace Chip8
namespace Machine

variable {m : Machine} {calls : List Int}

-- The return addresses of the open calls after a cycle of `m`, the most recent call first.
def callsAfterCycle (m : Machine) (calls : List Int) : List Int :=
  match m.step.result with
  | .ok { word := some w, fault := none, .. } =>
    if Word.IsCall w then (m.pc + 2) :: calls
    else if Word.IsReturn w then calls.tail
    else calls
  | _ => calls

def callsAfter (m : Machine) (calls : List Int) : Request → List Int
  | .step  => m.callsAfterCycle calls
  | .reset => []
  | _      => calls

def openCalls (m : Machine) (calls : List Int) : List Request → List Int
  | []        => calls
  | r :: rest => (m.serve r).openCalls (m.callsAfter calls r) rest

-- The stack holds the return addresses of the open calls from the oldest on. What lies above them is left
-- over from calls that have returned.
structure Holds (m : Machine) (calls : List Int) : Prop where
  sp    : m.sp = calls.length
  stack : m.stack.toList.take calls.length = calls.reverse

theorem Holds.length_le (h : m.Holds calls) : calls.length ≤ m.stack.size := by
  have := congrArg List.length h.stack
  simp at this
  omega

theorem Holds.of_same {m' : Machine} (h : m.Holds calls) (sp : m'.sp = m.sp) (stack : m'.stack = m.stack) :
    m'.Holds calls :=
  ⟨sp ▸ h.sp, stack ▸ h.stack⟩

theorem call_of_lt {n : Nat} (target : Fin 4096) (sp : m.sp = n) (h : n < m.stack.size) :
    m.call target = .done { m with stack := m.stack.set n m.pc, sp := n + 1, pc := target.val } := by
  simp only [call]
  rw [if_neg (by omega), sp, show Index.entry m.stack.size n = .ok ⟨n, h⟩ from Index.entry_val ⟨n, h⟩]

theorem ret_of_lt {n : Nat} (sp : m.sp = n + 1) (h : n < m.stack.size) :
    m.ret = .done { m with sp := n, pc := m.stack[n] } := by
  simp only [ret]
  rw [if_neg (by omega), sp, Int.add_sub_cancel,
    show Index.entry m.stack.size n = .ok ⟨n, h⟩ from Index.entry_val ⟨n, h⟩]
  rfl

theorem Holds.push (h : m.Holds calls) (room : calls.length < m.stack.size) (a pc : Int) :
    { m with stack := m.stack.set calls.length a, sp := calls.length + 1, pc }.Holds (a :: calls) where
  sp    := rfl
  stack := by
    have room' : calls.length < (m.stack.toList.set calls.length a).length := by simpa using room
    simp only [Array.toList_set, List.length_cons, List.reverse_cons]
    rw [List.take_succ_eq_append_getElem room', List.take_set_of_le (Nat.le_refl _), h.stack,
      List.getElem_set_self]

theorem Holds.pop {a : Int} {rest : List Int} (h : m.Holds (a :: rest)) (pc : Int) :
    { m with sp := rest.length, pc }.Holds rest where
  sp    := rfl
  stack := by
    have top := congrArg (List.take rest.length) h.stack
    simpa [List.take_take] using top

theorem Holds.top {a : Int} {rest : List Int} (h : m.Holds (a :: rest)) (room : rest.length < m.stack.size) :
    m.stack[rest.length] = a := by
  have top := congrArg (·[rest.length]?) h.stack
  simpa [room] using top

theorem Holds.run (h : m.Holds calls) {i : Instruction} {e : Execution} (run : i.run m = e)
    (notCall : ∀ target, i ≠ .call target) (notRet : i ≠ .ret) : e.machine.Holds calls := by
  have same := i.run_frame m
  rw [run] at same
  refine h.of_same (same .sp ?_) (same .stack ?_)
  all_goals cases i <;> simp_all [Instruction.writes]

section

variable {w : UInt16} (fetch : Word.fetch m.memory.bytes m.pc = .ok w)

include fetch

theorem Holds.call_stuck (h : m.Holds calls) (isCall : Word.IsCall w) (full : calls.length = m.stack.size) :
    m.Stuck w (.stackOverflow m.pc) := by
  have ⟨target, decode⟩ := Instruction.exists_call_iff.mpr isCall
  refine .fault fetch decode ?_
  have full' : (m.stack.size : Int) ≤ m.sp := by rw [h.sp]; omega
  simp only [Instruction.fault?, advance, if_pos full', Int.add_sub_cancel]

theorem Holds.step_call (h : m.Holds calls) (isCall : Word.IsCall w) (room : calls.length < m.stack.size) :
    ∃ target : Fin 4096, m.step = { m.advance w.toNat with
      stack := m.stack.set calls.length (m.pc + 2), sp := calls.length + 1, pc := target.val }.finish w none [] := by
  have ⟨target, decode⟩ := Instruction.exists_call_iff.mpr isCall
  have call := call_of_lt (m := m.advance w.toNat) target h.sp room
  exact ⟨target, step_of_done fetch ((execute_of_instruction decode).trans call)⟩

theorem Holds.ret_stuck (h : m.Holds []) (isReturn : Word.IsReturn w) : m.Stuck w (.stackUnderflow m.pc) := by
  refine .fault fetch (Instruction.ofWord?_eq_ret_iff.mpr isReturn) ?_
  have sp : m.sp = 0 := h.sp
  simp only [Instruction.fault?, advance, if_pos sp, Int.add_sub_cancel]

theorem Holds.step_ret {a : Int} {rest : List Int} (h : m.Holds (a :: rest)) (isReturn : Word.IsReturn w) :
    m.step = { m.advance w.toNat with sp := rest.length, pc := a }.finish w none [] := by
  have room : rest.length < m.stack.size := h.length_le
  have decode := Instruction.ofWord?_eq_ret_iff.mpr isReturn
  have ret := ret_of_lt (m := m.advance w.toNat) h.sp room
  rw [(h.of_same rfl rfl : (m.advance w.toNat).Holds (a :: rest)).top room] at ret
  exact step_of_done fetch ((execute_of_instruction decode).trans ret)

end

theorem callsAfterCycle_of_stuck {word : Option UInt16} {f : Fault} (h : m.Stuck word f) :
    m.callsAfterCycle calls = calls := by
  simp [callsAfterCycle, h.step, finish]

theorem callsAfterCycle_of_done {w : UInt16} {m' : Machine} (h : m.step = m'.finish w none []) :
    m.callsAfterCycle calls =
      if Word.IsCall w then (m.pc + 2) :: calls else if Word.IsReturn w then calls.tail else calls := by
  simp [callsAfterCycle, h, finish]

theorem Holds.of_stuck (h : m.Holds calls) {word : Option UInt16} {f : Fault} (stuck : m.Stuck word f) :
    m.step.machine.Holds (m.callsAfterCycle calls) := by
  rw [callsAfterCycle_of_stuck stuck]
  have same := stuck.step_sameBut
  exact h.of_same (same .sp (by decide)) (same .stack (by decide))

theorem Holds.step_other (h : m.Holds calls)
    (other : ∀ w, Word.fetch m.memory.bytes m.pc = .ok w → ¬Word.IsCall w ∧ ¬Word.IsReturn w) :
    m.step.machine.Holds (m.callsAfterCycle calls) := by
  -- What is carried out instead keeps the stack, even where it brings down the machine.
  have carried {w : UInt16} {i : Instruction} {e : Execution} (fetch : Word.fetch m.memory.bytes m.pc = .ok w)
      (decode : Instruction.ofWord? w.toNat = some i) (run : i.run (m.advance w.toNat) = e) :
      e.machine.Holds calls := by
    refine (h.of_same rfl rfl : (m.advance w.toNat).Holds calls).run run ?_ ?_
    · rintro target rfl
      exact (other w fetch).left (Instruction.exists_call_iff.mp ⟨target, decode⟩)
    · rintro rfl
      exact (other w fetch).right (Instruction.ofWord?_eq_ret_iff.mp decode)
  simp only [callsAfterCycle]
  have course := m.course
  generalize m.step = t at course ⊢
  cases course with
  | stuck =>
    simp only [finish]
    exact h.of_same rfl rfl
  | unknown => exact h.of_same rfl rfl
  | crash fetch decode run => exact carried fetch decode run
  | done fetch decode run =>
    obtain ⟨notCall, notReturn⟩ := other _ fetch
    simp only [finish, if_neg notCall, if_neg notReturn]
    exact (carried fetch decode run).of_same rfl rfl

theorem Holds.step (h : m.Holds calls) : m.step.machine.Holds (m.callsAfterCycle calls) := by
  cases fetch : Word.fetch m.memory.bytes m.pc with
  | error f => exact h.of_stuck (.unread fetch)
  | ok w =>
    by_cases isCall : Word.IsCall w
    case pos =>
      rcases Nat.lt_or_eq_of_le h.length_le with room | full
      · have ⟨target, step⟩ := h.step_call fetch isCall room
        rw [callsAfterCycle_of_done step, step, if_pos isCall]
        exact (h.push room (m.pc + 2) target.val).of_same rfl rfl
      · exact h.of_stuck (h.call_stuck fetch isCall full)
    by_cases isReturn : Word.IsReturn w
    case pos =>
      cases calls with
      | nil => exact h.of_stuck (h.ret_stuck fetch isReturn)
      | cons a rest =>
        have step := h.step_ret fetch isReturn
        rw [callsAfterCycle_of_done step, step, if_neg isCall, if_pos isReturn]
        exact (h.pop a).of_same rfl rfl
    case neg =>
      refine h.step_other fun w' fetch' => ?_
      cases fetch.symm.trans fetch'
      exact ⟨isCall, isReturn⟩

theorem reset_holds (m : Machine) : m.reset.Holds [] where
  sp    := rfl
  stack := by simp

theorem powerOn_holds (display : Display) (edge : EdgeRule) (stackSize : Nat) (random : RandomSource)
    (speaker : Option Nat) : (powerOn display edge stackSize random speaker).Holds [] where
  sp    := rfl
  stack := by simp

theorem Holds.serve (h : m.Holds calls) (r : Request) : (m.serve r).Holds (m.callsAfter calls r) := by
  have service := m.service r
  generalize m.serve r = m' at service ⊢
  cases service with
  | step  => exact h.step
  | reset => exact m.reset_holds
  | tick  => exact h.of_same rfl rfl
  | memory kind | keys kind =>
    cases r
    case step | reset => cases kind
    all_goals exact h.of_same rfl rfl

theorem Holds.after (h : m.Holds calls) (requests : List Request) :
    (m.after requests).Holds (m.openCalls calls requests) := by
  induction requests generalizing m calls with
  | nil => exact h
  | cons r rest ih => exact ih (h.serve r)

section

variable {w : UInt16}

theorem Holds.report_call (h : m.Holds calls) (fetch : Word.fetch m.memory.bytes m.pc = .ok w)
    (isCall : Word.IsCall w) :
    ∃ c, m.step.result = .ok c ∧ c.word = some w ∧
      c.status = (if calls.length = m.stack.size then .stackFault else .normal) ∧
      m.callsAfterCycle calls = if calls.length = m.stack.size then calls else (m.pc + 2) :: calls := by
  by_cases full : calls.length = m.stack.size
  case pos =>
    have stuck := h.call_stuck fetch isCall full
    refine ⟨_, congrArg Turn.result stuck.step, rfl, ?_, ?_⟩
    · rw [if_pos full]
      rfl
    · rw [if_pos full, callsAfterCycle_of_stuck stuck]
  case neg =>
    have ⟨_, step⟩ := h.step_call fetch isCall (Nat.lt_of_le_of_ne h.length_le full)
    refine ⟨_, congrArg Turn.result step, rfl, ?_, ?_⟩
    · rw [if_neg full]
      rfl
    · rw [if_neg full, callsAfterCycle_of_done step, if_pos isCall]

theorem Holds.report_ret (h : m.Holds calls) (fetch : Word.fetch m.memory.bytes m.pc = .ok w)
    (isReturn : Word.IsReturn w) :
    ∃ c, m.step.result = .ok c ∧ c.word = some w ∧
      c.status = (if calls = [] then .stackFault else .normal) ∧
      m.callsAfterCycle calls = calls.tail ∧
      ∀ a rest, calls = a :: rest → m.step.machine.pc = a := by
  cases calls with
  | nil =>
    have stuck := h.ret_stuck fetch isReturn
    exact ⟨_, congrArg Turn.result stuck.step, rfl, rfl, callsAfterCycle_of_stuck stuck, fun _ _ none => nomatch none⟩
  | cons a rest =>
    have step := h.step_ret fetch isReturn
    refine ⟨_, congrArg Turn.result step, rfl, rfl, ?_, ?_⟩
    · rw [callsAfterCycle_of_done step, if_neg isReturn.not_isCall, if_pos isReturn]
    · rintro _ _ ⟨⟩
      rw [step]
      rfl

end

-- The stack is the list of the open calls, whatever was done since the machine was switched on. A call
-- faults exactly with `stackSize` calls open and a return exactly with none, and neither then opens or
-- closes one. Every other return goes to the address after the last call that is still open.
theorem stack_holds_open_calls (display : Display) (edge : EdgeRule) (stackSize : Nat)
    (random : RandomSource) (speaker : Option Nat) (requests : List Request) :
    let m := (powerOn display edge stackSize random speaker).after requests
    let calls := (powerOn display edge stackSize random speaker).openCalls [] requests
    m.sp = calls.length ∧ m.stack.toList.take calls.length = calls.reverse ∧
      ∀ w, Word.fetch m.memory.bytes m.pc = .ok w →
        (Word.IsCall w →
          ∃ c, m.step.result = .ok c ∧ c.word = some w ∧
            c.status = (if calls.length = stackSize then .stackFault else .normal) ∧
            m.callsAfterCycle calls = if calls.length = stackSize then calls else (m.pc + 2) :: calls) ∧
        (Word.IsReturn w →
          ∃ c, m.step.result = .ok c ∧ c.word = some w ∧
            c.status = (if calls = [] then .stackFault else .normal) ∧
            m.callsAfterCycle calls = calls.tail ∧
            ∀ a rest, calls = a :: rest → m.step.machine.pc = a) := by
  intro m calls
  have holds : m.Holds calls := (powerOn_holds display edge stackSize random speaker).after requests
  have same := (powerOn display edge stackSize random speaker).after_preserves_make requests
  have size : m.stack.size = stackSize := same.stackSize.trans Array.size_replicate
  refine ⟨holds.sp, holds.stack, fun w fetch => ⟨fun isCall => ?_, holds.report_ret fetch⟩⟩
  rw [← size]
  exact holds.report_call fetch isCall

def innerCall : List Request :=
  [.load [0x22, 0x04, 0x12, 0x02, 0x22, 0x08, 0x00, 0xEE, 0x00, 0xEE], .step, .step]

theorem inner_call_returns_first :
    ((powerOn .standard .clip 16 (.cycle #[]) none).after innerCall).stack.toList.take 2 = [0x202, 0x206] ∧
      ((powerOn .standard .clip 16 (.cycle #[]) none).after innerCall).step.machine.pc = 0x206 := by
  have ⟨_, stack, next⟩ := stack_holds_open_calls .standard .clip 16 (.cycle #[]) none innerCall
  have calls : (powerOn .standard .clip 16 (.cycle #[]) none).openCalls [] innerCall = [0x206, 0x202] := by
    decide +kernel
  rw [calls] at stack next
  have ⟨_, _, _, _, _, goesTo⟩ := (next 0x00EE (by decide +kernel)).right (by decide)
  exact ⟨stack, goesTo _ _ rfl⟩

end Machine
end Chip8
