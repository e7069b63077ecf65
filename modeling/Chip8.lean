import Chip8.Machine.Access
import Chip8.Main
import Chip8.Proofs.Run
import Chip8.Proofs.Range
import Chip8.Proofs.Faults
import Chip8.Proofs.CallStack
import Chip8.Proofs.Passes
import Chip8.Proofs.Picture
import Chip8.Proofs.InstructionSet
import Chip8.Proofs.FaultCauses
import Chip8.Proofs.Driving
import Chip8.Proofs.Reset
import Chip8.Proofs.Effects
import Chip8.Proofs.Timing
import Chip8.Proofs.Inputs
import Chip8.Proofs.Grid
import Chip8.Proofs.Targets
import Chip8.Proofs.Xor
import Chip8.Proofs.Strokes
import Chip8.Proofs.EdgeRules
import Chip8.Proofs.StackSize
import Chip8.Proofs.Refit
import Chip8.Proofs.Arithmetic
import Chip8.Proofs.Blocks
import Chip8.Proofs.Loading
import Chip8.Proofs.Transfer
import Chip8.Proofs.Waiting
import Chip8.Proofs.Rendering
import Chip8.Proofs.KeyStates
import Chip8.Proofs.LowBits
import Chip8.Proofs.PassingOver
import Chip8.Proofs.Bytewise
