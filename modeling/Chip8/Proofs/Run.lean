import Chip8.Machine.Access
import Chip8.Machine.Keys
import Chip8.Machine.Program
import Chip8.Proofs.Cycle

namespace Chip8

inductive Request where
  | step
  | load (image : List UInt8)
  | loadNumbers (values : List Int)
  | loadRom (path : FileName) (file : RomFile)
  | reset
  | setKeys (states : Array Bool)
  | press (k : Int)
  | release (k : Int)
  | tick
  | read (address : Int)
  | write (address value : Int)
  | checkRange (start count : Int)

namespace Request

def onKeys : Request → Bool
  | setKeys _ | press _ | release _ => true
  | _                               => false

def onMemory : Request → Bool
  | load _ | loadNumbers _ | loadRom .. | read _ | write .. | checkRange .. => true
  | _                                                                       => false

end Request

namespace Machine

def orSame (m : Machine) : Except ε Machine → Machine
  | .ok m'   => m'
  | .error _ => m

def serve (m : Machine) : Request → Machine
  | .step               => m.step.machine
  | .load image         => m.orSame ((m.load image).map Prod.fst)
  | .loadNumbers values => m.orSame ((m.loadNumbers values).map Prod.fst)
  | .loadRom path file  => m.orSame ((m.loadRom path file).map Prod.fst)
  | .reset              => m.reset
  | .setKeys states     => m.orSame (m.setKeys states)
  | .press k            => m.orSame (m.press k)
  | .release k          => m.orSame (m.release k)
  | .tick               => m.tick
  | .read _             => m
  | .write address value => m.orSame (m.write address value)
  | .checkRange _ _     => m

def after (m : Machine) (requests : List Request) : Machine :=
  requests.foldl serve m

-- The machines at which the cycles of a run begin.
def starts (m : Machine) : List Request → List Machine
  | []            => []
  | .step :: rest => m :: m.step.machine.starts rest
  | r :: rest     => (m.serve r).starts rest

def results (m : Machine) (requests : List Request) : List (Except Crash Cycle) :=
  (m.starts requests).map (·.step.result)

def holding (program : List UInt8) : Machine :=
  (powerOn .standard .clip 16 (.cycle #[]) none).after [.load program]

variable {m : Machine}

theorem after_preserves {P : Machine → Prop} {requests : List Request}
    (serve : ∀ m, ∀ r ∈ requests, P m → P (m.serve r)) (h : P m) : P (m.after requests) := by
  induction requests generalizing m with
  | nil => exact h
  | cons r rest ih =>
    refine ih (fun m' r' hr => serve m' r' (List.mem_cons_of_mem r hr)) ?_
    exact serve m r List.mem_cons_self h

theorem starts_of_ne_step {r : Request} (other : r ≠ .step) (rest : List Request) :
    m.starts (r :: rest) = (m.serve r).starts rest := by
  cases r
  case step => contradiction
  all_goals rfl

theorem results_step (m : Machine) (rest : List Request) :
    m.results (.step :: rest) = m.step.result :: m.step.machine.results rest :=
  rfl

theorem results_of_ne_step {r : Request} (other : r ≠ .step) (rest : List Request) :
    m.results (r :: rest) = (m.serve r).results rest := by
  rw [results, results, starts_of_ne_step other]

theorem starts_append (past rest : List Request) :
    m.starts (past ++ rest) = m.starts past ++ (m.after past).starts rest := by
  induction past generalizing m with
  | nil => rfl
  | cons r past ih =>
    by_cases isStep : r = .step
    case pos =>
      subst isStep
      exact congrArg (m :: ·) ih
    case neg =>
      rw [List.cons_append, starts_of_ne_step isStep, starts_of_ne_step isStep]
      exact ih

theorem exists_after_of_mem_starts {requests : List Request} {s : Machine} (mem : s ∈ m.starts requests) :
    ∃ past, past ++ [.step] <+: requests ∧ m.after past = s := by
  induction requests generalizing m with
  | nil => cases mem
  | cons r rest ih =>
    have later (mem : s ∈ (m.serve r).starts rest) : ∃ past, past ++ [.step] <+: r :: rest ∧ m.after past = s := by
      obtain ⟨past, start, left⟩ := ih mem
      exact ⟨r :: past, List.cons_prefix_cons.mpr ⟨rfl, start⟩, left⟩
    by_cases isStep : r = .step
    case pos =>
      subst isStep
      rcases List.mem_cons.mp mem with rfl | mem
      · exact ⟨[], ⟨rest, rfl⟩, rfl⟩
      · exact later mem
    case neg =>
      rw [starts_of_ne_step isStep] at mem
      exact later mem

inductive Service (m : Machine) : Request → Machine → Prop
  | step  : Service m .step m.step.machine
  | reset : Service m .reset m.reset
  | tick  : Service m .tick m.tick
  | memory {r : Request} (kind : r.onMemory) (memory : Memory) : Service m r { m with memory }
  | keys {r : Request} (kind : r.onKeys) (keys : Vector Bool 16) : Service m r { m with keys }

theorem load_writes_memory (m : Machine) (image : List UInt8) :
    ∃ memory, m.orSame ((m.load image).map Prod.fst) = { m with memory } := by
  simp only [load]
  split <;> exact ⟨_, rfl⟩

theorem loadNumbers_writes_memory (m : Machine) (values : List Int) :
    ∃ memory, m.orSame ((m.loadNumbers values).map Prod.fst) = { m with memory } := by
  simp only [loadNumbers]
  split
  · split
    · exact load_writes_memory m _
    · exact ⟨_, rfl⟩
  · exact ⟨_, rfl⟩

theorem loadRom_writes_memory (m : Machine) (path : FileName) (file : RomFile) :
    ∃ memory, m.orSame ((m.loadRom path file).map Prod.fst) = { m with memory } := by
  simp only [loadRom]
  split
  · exact ⟨_, rfl⟩
  · split
    case h_5 => exact load_writes_memory m _
    all_goals exact ⟨_, rfl⟩

theorem write_writes_memory (m : Machine) (address value : Int) :
    ∃ memory, m.orSame (m.write address value) = { m with memory } := by
  simp only [write]
  split
  · exact ⟨_, rfl⟩
  · split <;> exact ⟨_, rfl⟩

theorem setKeys_writes_keys (m : Machine) (states : Array Bool) :
    ∃ keys, m.orSame (m.setKeys states) = { m with keys } := by
  simp only [setKeys]
  split <;> exact ⟨_, rfl⟩

theorem setKey_writes_keys (m : Machine) (k : Int) (down : Bool) :
    ∃ keys, m.orSame (m.setKey k down) = { m with keys } := by
  simp only [setKey]
  split <;> exact ⟨_, rfl⟩

theorem serve_on_memory (m : Machine) {r : Request} (kind : r.onMemory) :
    ∃ memory, m.serve r = { m with memory } := by
  cases r
  case load image => exact load_writes_memory m image
  case loadNumbers values => exact loadNumbers_writes_memory m values
  case loadRom path file => exact loadRom_writes_memory m path file
  case write address value => exact write_writes_memory m address value
  case read | checkRange => exact ⟨_, rfl⟩
  all_goals cases kind

theorem serve_on_keys (m : Machine) {r : Request} (kind : r.onKeys) :
    ∃ keys, m.serve r = { m with keys } := by
  cases r
  case setKeys states => exact setKeys_writes_keys m states
  case press k => exact setKey_writes_keys m k true
  case release k => exact setKey_writes_keys m k false
  all_goals cases kind

theorem service (m : Machine) (r : Request) : Service m r (m.serve r) := by
  by_cases onMemory : r.onMemory
  case pos =>
    have ⟨memory, h⟩ := m.serve_on_memory onMemory
    rw [h]
    exact .memory onMemory memory
  by_cases onKeys : r.onKeys
  case pos =>
    have ⟨keys, h⟩ := m.serve_on_keys onKeys
    rw [h]
    exact .keys onKeys keys
  cases r
  case neg.step => exact .step
  case neg.reset => exact .reset
  case neg.tick => exact .tick
  all_goals contradiction

end Machine
end Chip8
