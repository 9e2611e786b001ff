import ChipEight.Layout
import ChipEight.Banner
import ChipEight.Bank
import ChipEight.CallStack
import ChipEight.Keypad
import ChipEight.Display
import ChipEight.Instruction.Assembly
import ChipEight.Machine.Step
import ChipEight.Keymap
import ChipEight.Session
import ChipEight.Headless
import ChipEight.Terminal.Screen
import ChipEight.Terminal.Keys
import ChipEight.Window.Surface
import ChipEight.Window.Events
import ChipEight.Launch
import ChipEight.CommandLine.Settings
import ChipEight.Main
import ChipEight.Proofs.Access
import ChipEight.Proofs.Completion
import ChipEight.Proofs.Drawing
import ChipEight.Proofs.Execution
import ChipEight.Proofs.Stepping
import ChipEight.Proofs.Reachable
import ChipEight.Proofs.Decoding
import ChipEight.Proofs.InstructionTable
import ChipEight.Proofs.Faults
import ChipEight.Proofs.CallDiscipline
import ChipEight.Proofs.Footprint
import ChipEight.Proofs.Changes
import ChipEight.Proofs.KeyWait
import ChipEight.Proofs.Painting
import ChipEight.Proofs.Viewer
import ChipEight.Proofs.Frames
import ChipEight.Proofs.Turns
import ChipEight.Proofs.Recording
import ChipEight.Proofs.Refreshing
import ChipEight.Proofs.Unnoticed
import ChipEight.Proofs.Restart
import ChipEight.Proofs.Timers
import ChipEight.Proofs.FrontEnds
import ChipEight.Proofs.Rigs
import ChipEight.Proofs.Conclusion
import ChipEight.Proofs.TerminalSetUp
import ChipEight.Proofs.TerminalRestored
import ChipEight.Proofs.Keymaps
import ChipEight.Proofs.KeyDelivery
import ChipEight.Proofs.HexText
import ChipEight.Proofs.AssemblyText
import ChipEight.Proofs.Swapped
import ChipEight.Proofs.Disassembly
import ChipEight.Proofs.NonInterference
import ChipEight.Proofs.Interleaving
import ChipEight.Proofs.QuitRequest
import ChipEight.Proofs.Sprites
import ChipEight.Proofs.SpriteAlgebra
import ChipEight.Proofs.Plotting
import ChipEight.Proofs.DisplayReports
import ChipEight.Proofs.Tracing
import ChipEight.Proofs.Arithmetic
import ChipEight.Proofs.Overhang
import ChipEight.Proofs.Diagnosis
import ChipEight.Proofs.ControlFlow
import ChipEight.Proofs.Transfers
import ChipEight.Proofs.AcceptedKeymaps
import ChipEight.Proofs.ReaderEnds
import ChipEight.Proofs.Entries
import ChipEight.Proofs.Deadlines
import ChipEight.Proofs.Rates
import ChipEight.Proofs.KeyEvents
import ChipEight.Proofs.NumeralGrammar
import ChipEight.Proofs.Palettes
import ChipEight.Proofs.PixelBuffer
import ChipEight.Proofs.PadPicture
import ChipEight.Proofs.Repainting
import ChipEight.Proofs.Dumps
import ChipEight.Proofs.Requests
