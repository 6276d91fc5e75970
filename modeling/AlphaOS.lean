import AlphaOS.Boot.Bitmap
import AlphaOS.Boot.Placement
import AlphaOS.Boot.Paging
import AlphaOS.Lib.Reach
import AlphaOS.Lib.Lseg
import AlphaOS.Sched.Task
import AlphaOS.Sched.Scheduler
import AlphaOS.Sched.Invariant
import AlphaOS.Sched.Steps
import AlphaOS.Sched.Progress
import AlphaOS.Sched.Idling
import AlphaOS.Sched.RoundRobin
import AlphaOS.Sched.Timer
import AlphaOS.Sched.Pids
import AlphaOS.Sched.Reaping
import AlphaOS.Lib.X86
import AlphaOS.Sched.Switch
import AlphaOS.Sched.UserStack
import AlphaOS.Idt.Exceptions
import AlphaOS.Idt.Gates
import AlphaOS.Tty.Console
import AlphaOS.Tty.Readers
import AlphaOS.Tty.Lines
import AlphaOS.Syscall.Files
import AlphaOS.Syscall.Waiting
import AlphaOS.Drivers.Keyboard
import AlphaOS.Drivers.Delivery
import AlphaOS.Fs.Slots
import AlphaOS.Fs.Contents
import AlphaOS.Fs.Buffers
import AlphaOS.Fs.Tar
import AlphaOS.Fs.Volume
import AlphaOS.Fs.Limits
import AlphaOS.Lib.Bits
import AlphaOS.Lib.Ledger
import AlphaOS.Lib.Loop
import AlphaOS.Mm.Pool
import AlphaOS.Mm.Runs
import AlphaOS.Mm.Agreement
import AlphaOS.Mm.Isolation
import AlphaOS.Mm.Regions
import AlphaOS.Mm.Exhaustion
import AlphaOS.Mm.Lifetime
import AlphaOS.Mm.Mapping
import AlphaOS.Mm.Unmapping
import AlphaOS.Mm.HeapRuns
import AlphaOS.Graphics.Framebuffer
import AlphaOS.Lib.Dlist
import AlphaOS.Slab.Caches
import AlphaOS.Slab.Overlap
import AlphaOS.Slab.KernelHeap
import AlphaOS.Slab.Buffers
import AlphaOS.Lib.Tiling
import AlphaOS.UserHeap.WellFormed
import AlphaOS.Libc.Printf
import AlphaOS.Tty.Screen
import AlphaOS.Tty.Printing
import AlphaOS.Mm.Teardown
