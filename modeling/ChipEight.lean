import ChipEight.Emulator.Run
import ChipEight.Failure
import ChipEight.Json.Quoted
import ChipEight.Json.Read
import ChipEight.Log.Journal
import ChipEight.Page.Basic
import ChipEight.Session.Run
import ChipEight.Proofs.Instruction.Coding
import ChipEight.Proofs.Machine.Effect
import ChipEight.Proofs.Machine.Footprint
import ChipEight.Proofs.Machine.Stepping
import ChipEight.Proofs.Machine.Halting
import ChipEight.Proofs.Machine.Bounds
import ChipEight.Proofs.Emulator.Run
import ChipEight.Proofs.Emulator.Bounds
import ChipEight.Proofs.Machine.Matching
import ChipEight.Proofs.Machine.Calls
import ChipEight.Proofs.Emulator.Halted
import ChipEight.Proofs.Emulator.Beats
import ChipEight.Proofs.Emulator.Restart
import ChipEight.Proofs.Emulator.KeyWait
import ChipEight.Proofs.Emulator.FrameTimer
import ChipEight.Proofs.Machine.Bare
import ChipEight.Proofs.Emulator.Slicing
import ChipEight.Proofs.Emulator.Intact
import ChipEight.Proofs.Session.Mirror
import ChipEight.Proofs.Session.Chord
import ChipEight.Proofs.Instruction.Listing
import ChipEight.Proofs.Number.Shortest
import ChipEight.Proofs.Instruction.Assembly
import ChipEight.Proofs.Emulator.Prediction
import ChipEight.Proofs.Program.Outline
import ChipEight.Proofs.Program.KeyEcho
import ChipEight.Proofs.Emulator.KeyEcho
import ChipEight.Proofs.Machine.Sprite
import ChipEight.Proofs.Machine.Overlay
import ChipEight.Proofs.Machine.Arithmetic
import ChipEight.Proofs.Machine.Report
import ChipEight.Proofs.Machine.Aftermath
import ChipEight.Proofs.Machine.RoundTrip
import ChipEight.Proofs.Session.Coherence
import ChipEight.Proofs.Session.InFlight
import ChipEight.Proofs.Program.Entrances
import ChipEight.Proofs.Archive.Collation
import ChipEight.Proofs.Program.Unpacking
import ChipEight.Proofs.Machine.Keypad
import ChipEight.Proofs.Machine.Torus
import ChipEight.Proofs.Emulator.Logging
import ChipEight.Proofs.Settings.Resolution
import ChipEight.Proofs.Session.Layers
