import Sprite.Heap.FirstFit
import Sprite.Heap.Accesses
import Sprite.Heap.Fragments
import Sprite.Cache.Ownership
import Sprite.Cache.Clear
import Sprite.Ide.Request
import Sprite.Ide.Identify
import Sprite.Fs.Failures
import Sprite.Fs.Missing
import Sprite.Fs.Zones
import Sprite.Fs.Slots
import Sprite.Fs.Cycles
import Sprite.Fs.Copies
import Sprite.Fs.Processed
import Sprite.Fs.Allocation
import Sprite.Fs.BitQueries
import Sprite.Fs.Reboots
import Sprite.Sched.RunQueue
import Sprite.Sched.Lookup
import Sprite.Sched.RoundRobin
import Sprite.Paging.Faults
import Sprite.Paging.Ownership
import Sprite.Paging.Discovery
import Sprite.Paging.Misses
import Sprite.Sched.Preemption
import Sprite.Console.Terminal
import Sprite.Console.Numbers
import Sprite.Console.Keyboard
import Sprite.Strings.Comparison
import Sprite.Strings.Building
import Sprite.Paging.Requests
import Sprite.Paging.Housing
import Sprite.Heap.Paged
import Sprite.Interrupts.Lines
import Sprite.Interrupts.Descriptors
import Sprite.Interrupts.Delivery
import Sprite.Sched.Stacks
import Sprite.Cache.Recency
import Sprite.Debug.Trace
import Sprite.Console.Typing
