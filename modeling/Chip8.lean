import Chip8.Buzzer
import Chip8.CallStack
import Chip8.Channel
import Chip8.CommandLine.Options
import Chip8.CommandLine.Parse
import Chip8.CommandLine.Session
import Chip8.Fault
import Chip8.Instruction
import Chip8.Instruction.Assembly
import Chip8.Journal
import Chip8.Keypad
import Chip8.Listing
import Chip8.Machine
import Chip8.Main
import Chip8.Memory
import Chip8.Message
import Chip8.Network
import Chip8.Processor
import Chip8.Processor.Operations
import Chip8.Screen
import Chip8.Settings
import Chip8.SharedState
import Chip8.Text.Decimal
import Chip8.Text.Hex
import Chip8.Text.Record
import Chip8.Timer
import Chip8.Wire.Marker
import Chip8.Wire.Reader
import Chip8.Proofs.Actions
import Chip8.Proofs.ScreenFacts
import Chip8.Proofs.RoundTrip
import Chip8.Proofs.ChannelFacts
import Chip8.Proofs.Mirror
import Chip8.Proofs.InstructionFacts
import Chip8.Proofs.StepOutcome
import Chip8.Proofs.Restart
import Chip8.Proofs.Checked
import Chip8.Proofs.Safety
import Chip8.Proofs.Interleaving
import Chip8.Proofs.LastMessage
import Chip8.Proofs.Beeps
import Chip8.Proofs.WireForm
import Chip8.Proofs.Record
import Chip8.Proofs.SoundProtocol
import Chip8.Proofs.Footprint
import Chip8.Proofs.Halting
import Chip8.Proofs.Twins
import Chip8.Proofs.TimerOrder
import Chip8.Proofs.Dialects
import Chip8.Proofs.Links
import Chip8.Proofs.Tracing
import Chip8.Proofs.Calls
import Chip8.Proofs.Sprites
import Chip8.Proofs.Addresses
import Chip8.Proofs.IndexWidth
import Chip8.Proofs.Drawings
import Chip8.Proofs.Loading
import Chip8.Proofs.Forms
import Chip8.Proofs.Arithmetic
import Chip8.Proofs.Transfers
import Chip8.Proofs.Listening
import Chip8.Proofs.HeldKeys
import Chip8.Proofs.Countdown
import Chip8.Proofs.Idling
import Chip8.Proofs.Glyphs
import Chip8.Proofs.Truncation
import Chip8.Proofs.Packing
import Chip8.Proofs.CallList
import Chip8.Proofs.Regions
