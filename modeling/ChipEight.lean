import ChipEight.Alu
import ChipEight.CallStack
import ChipEight.Clock
import ChipEight.CommandLine.Arguments
import ChipEight.CommandLine.FileTree
import ChipEight.CommandLine.Number
import ChipEight.CommandLine.Outcome
import ChipEight.Dump
import ChipEight.Fault
import ChipEight.Frame
import ChipEight.Host
import ChipEight.Host.Console
import ChipEight.Instr
import ChipEight.Instr.Decode
import ChipEight.Instr.Encoding
import ChipEight.Instr.Exec
import ChipEight.Instr.Mnemonic
import ChipEight.Key
import ChipEight.Log
import ChipEight.Machine
import ChipEight.Machine.Execute
import ChipEight.Main
import ChipEight.Memory
import ChipEight.Opcode
import ChipEight.Platform
import ChipEight.Proofs.Arithmetic
import ChipEight.Proofs.CallNesting
import ChipEight.Proofs.Checked.Dispatch
import ChipEight.Proofs.Checked.Effects
import ChipEight.Proofs.Checked.Interpreter
import ChipEight.Proofs.Checked.Processor
import ChipEight.Proofs.Checked.Program
import ChipEight.Proofs.Checked.Rig
import ChipEight.Proofs.Checked.Safety
import ChipEight.Proofs.Checked.Simulation
import ChipEight.Proofs.Checked.Store
import ChipEight.Proofs.CommandGrammar
import ChipEight.Proofs.CommandOutcome
import ChipEight.Proofs.ControlFlow
import ChipEight.Proofs.DeviceCalls
import ChipEight.Proofs.Drawings
import ChipEight.Proofs.DumpReading
import ChipEight.Proofs.Execution
import ChipEight.Proofs.ExecutionLog
import ChipEight.Proofs.FaultAtomicity
import ChipEight.Proofs.Faults
import ChipEight.Proofs.FlowSignals
import ChipEight.Proofs.Footprints
import ChipEight.Proofs.FreshStarts
import ChipEight.Proofs.Histories
import ChipEight.Proofs.InstructionTable
import ChipEight.Proofs.KeyWaits
import ChipEight.Proofs.Keypads
import ChipEight.Proofs.Presentation
import ChipEight.Proofs.RandomStream
import ChipEight.Proofs.Runs
import ChipEight.Proofs.SessionInvariant
import ChipEight.Proofs.Sessions
import ChipEight.Proofs.SpillAndFill
import ChipEight.Proofs.Sprites
import ChipEight.Proofs.Stopping.Loops
import ChipEight.Proofs.Stopping.Requests
import ChipEight.Proofs.Stopping.Thread
import ChipEight.Proofs.Stores
import ChipEight.Proofs.StraightLines
import ChipEight.Proofs.TimeIndependence
import ChipEight.Proofs.Timers
import ChipEight.Proofs.TraceReading
import ChipEight.Proofs.Turns
import ChipEight.Proofs.Unnoticed
import ChipEight.Random
import ChipEight.Screen
import ChipEight.Text.Hex
import ChipEight.Vm
import ChipEight.Vm.Cycle
import ChipEight.Vm.Paced
import ChipEight.Vm.Run
import ChipEight.WallClock
