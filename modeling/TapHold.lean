import TapHold.Desk
import TapHold.Feed
import TapHold.Host.CallLog
import TapHold.Host.Report
import TapHold.Hook.Script
import TapHold.Keycode.Name
import TapHold.Keymap.Image
import TapHold.Keymap.Memory
import TapHold.Keymap.Tables
import TapHold.Proofs.Arbiter.Dispatch
import TapHold.Proofs.Host.Replay
import TapHold.Proofs.Arbiter.Chain
import TapHold.Proofs.Arbiter.Queue
import TapHold.Proofs.Arbiter.Orderly
import TapHold.Proofs.Arbiter.Quiet
import TapHold.Proofs.Event.Ledger
import TapHold.Proofs.Keyboard.NoHooks
import TapHold.Proofs.Arbiter.Account
import TapHold.Proofs.Host.Item
import TapHold.Proofs.Interpreter.Holds
import TapHold.Proofs.Arbiter.Due
import TapHold.Proofs.Arbiter.Scanned
import TapHold.Proofs.Arbiter.Counted
import TapHold.Proofs.Arbiter.Step
import TapHold.Proofs.Keyboard.Run
import TapHold.Proofs.Keyboard.Held
import TapHold.Proofs.Keyboard.NoStuckKeys
import TapHold.Proofs.Keyboard.NoStuckModifiers
import TapHold.Proofs.Arbiter.Run
import TapHold.Proofs.Arbiter.Turns
import TapHold.Proofs.Arbiter.Paired
import TapHold.Proofs.Arbiter.Typed
import TapHold.Proofs.Arbiter.Tries
import TapHold.Proofs.Arbiter.Placed
import TapHold.Proofs.Arbiter.Explained
import TapHold.Proofs.Arbiter.Cause
import TapHold.Proofs.Keyboard.Journal
import TapHold.Proofs.Arbiter.Overflow
import TapHold.Proofs.Arbiter.Sound
import TapHold.Proofs.Keyboard.Pending
import TapHold.Proofs.Keyboard.Traced
import TapHold.Proofs.Keyboard.Undispatched
import TapHold.Proofs.Arbiter.Repeated
import TapHold.Proofs.Keyboard.TapCauses
import TapHold.Proofs.Event.Later
import TapHold.Proofs.Interpreter.Later
import TapHold.Proofs.Arbiter.Later
import TapHold.Proofs.Hook.Later
import TapHold.Proofs.Keyboard.Later
import TapHold.Proofs.Arbiter.Tick
import TapHold.Proofs.Arbiter.Overdue
import TapHold.Proofs.Keyboard.Ticks
import TapHold.Proofs.Keyboard.Recovery
import TapHold.Proofs.Keymap.Body
import TapHold.Proofs.Keymap.Layout
import TapHold.Proofs.Action.Code
import TapHold.Proofs.Keymap.Format
import TapHold.Proofs.Keymap.Memory
import TapHold.Proofs.Host.Tapped
import TapHold.Proofs.Keyboard.HostFree
import TapHold.Proofs.Keyboard.Transparent
import TapHold.Proofs.Feed.Phases
import TapHold.Proofs.Host.Steady
import TapHold.Proofs.Keyboard.Reset
import TapHold.Proofs.Arbiter.Carry
import TapHold.Proofs.Arbiter.Window
import TapHold.Proofs.Arbiter.Decision
import TapHold.Proofs.Event.Strokes
import TapHold.Proofs.Arbiter.Alone
import TapHold.Proofs.Arbiter.Strokes
import TapHold.Proofs.Host.Requests
import TapHold.Proofs.Keyboard.Heard
import TapHold.Proofs.Arbiter.Retained
import TapHold.Proofs.Keyboard.Retained
import TapHold.Proofs.Interpreter.Keystroke
import TapHold.Proofs.Interpreter.OneShot
import TapHold.Proofs.Interpreter.Desk
import TapHold.Proofs.Interpreter.LayerKeys
import TapHold.Proofs.Keymap.Priority
import TapHold.Proofs.Interpreter.ModifierKeys
import TapHold.Proofs.Keyboard.OneShotTap
import TapHold.Proofs.Hook.Budget
import TapHold.Proofs.Hook.Muted
import TapHold.Proofs.Keyboard.Deferred
import TapHold.Proofs.Keyboard.Draining
