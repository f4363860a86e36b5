import CFiber.Base.Run
import CFiber.Base.Linked
import CFiber.Base.Indexed
import CFiber.Base.Heaped
import CFiber.Base.Lockstep
import CFiber.Base.Refine
import CFiber.Base.Masks
import CFiber.Base.Scan
import CFiber.Base.Blocks
import CFiber.Base.BigEndian
import CFiber.Memory.Slab
import CFiber.Memory.SlabRun
import CFiber.Memory.Multislab
import CFiber.Memory.MultislabRep
import CFiber.Memory.MultislabRelease
import CFiber.Memory.MultislabRun
import CFiber.Memory.Defensive
import CFiber.Memory.Hysteresis
import CFiber.Memory.Ledger
import CFiber.Memory.Shared
import CFiber.Stacks.Growable
import CFiber.Stacks.GrowablePool
import CFiber.Sched.Scheduler
import CFiber.Sched.Tasks
import CFiber.Sched.Lifecycle
import CFiber.Sched.Ownership
import CFiber.Sched.Geometry
import CFiber.Sched.RoundRobin
import CFiber.Sched.Completion
import CFiber.Sched.Holdings
import CFiber.Context.Bytes
import CFiber.Context.Routine
import CFiber.Context.Switch
import CFiber.Context.Runs
import CFiber.Context.Init
import CFiber.Context.Prologue
import CFiber.Stacks.Watermark
import CFiber.Sched.StackPeak
import CFiber.Nest.Thread
import CFiber.Nest.Nesting
import CFiber.Nest.ReturnHook
import CFiber.Nest.Reentry
import CFiber.Nest.Sanitizers
import CFiber.Nest.Announced
import CFiber.Nest.FiberContexts
import CFiber.Commands.Ring
import CFiber.Commands.RingInv
import CFiber.Commands.RingRun
import CFiber.Commands.Wakeup
import CFiber.Ev.Reactor
import CFiber.Ev.Timers
import CFiber.Ev.Descriptors
import CFiber.Ev.Park
import CFiber.Ev.Roster
import CFiber.Ev.Core
import CFiber.Ev.Calls
import CFiber.Ev.Pool
import CFiber.Ev.Spawn
import CFiber.Ev.Loop
import CFiber.Ev.Moves
import CFiber.Ev.Environment
import CFiber.Ev.HeapLaw
import CFiber.Ev.Census
import CFiber.Ev.Rounds
import CFiber.Ev.Expiry
import CFiber.Ev.Transfers
import CFiber.Ev.Turns
import CFiber.Ev.Writes
import CFiber.Ev.Timeouts
import CFiber.Ev.Limits
import CFiber.Ev.Deadlines
import CFiber.Ev.Teardown
import CFiber.Ev.StackSize
import CFiber.Ev.Registrations
import CFiber.Ev.FailedWaits
import CFiber.Ev.Resumptions
import CFiber.Ev.Closes
import CFiber.Ev.Handles
import CFiber.Ev.Permits
import CFiber.Ev.Posts
import CFiber.Ev.Quiescence
import CFiber.Ev.Replay
import CFiber.Ws.Sha1
import CFiber.Ws.Base64
import CFiber.Ws.Wire
import CFiber.Ws.Calls
import CFiber.Ws.Frame
import CFiber.Ws.Session
import CFiber.Ws.Client
import CFiber.Ws.Messages
import CFiber.Ws.Handshake
import CFiber.Ws.Upgrade
