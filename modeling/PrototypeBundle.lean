import PrototypeBundle.Shared.Run
import PrototypeBundle.Shared.Dyadic
import PrototypeBundle.Memory.NodePool
import PrototypeBundle.Buddy.Requests
import PrototypeBundle.BinAlloc.Address
import PrototypeBundle.Memory.Mark
import PrototypeBundle.Memory.Scans
import PrototypeBundle.Gc.Registration
import PrototypeBundle.Tracing.Runs
import PrototypeBundle.BinAlloc.Runs
import PrototypeBundle.Radix.Correct
import PrototypeBundle.Tmap.Sort
import PrototypeBundle.Tmap.Balance
import PrototypeBundle.Tmap.Comparer
import PrototypeBundle.Random.FastRnd
import PrototypeBundle.Random.Xorshift32
import PrototypeBundle.Bitmap.Map
import PrototypeBundle.ProtoE.Deque
import PrototypeBundle.ProtoE.Many
import PrototypeBundle.ProtoG.BusyWait
import PrototypeBundle.Radix.Capacity
import PrototypeBundle.PageCache.ClusterRuns
import PrototypeBundle.PageCache.Sequential
import PrototypeBundle.PageCache.Interleaving
import PrototypeBundle.ProtoG.Accounting
import PrototypeBundle.Gc.BuddyRuns
import PrototypeBundle.Gc.Throwing
import PrototypeBundle.Tracing.Interleaving
import PrototypeBundle.Ring.Assignment
import PrototypeBundle.Memory.TableRuns
import PrototypeBundle.HeapPages.Capacity
import PrototypeBundle.SpinLock.SharedMutex
import PrototypeBundle.BinAlloc.AtomicStack
import PrototypeBundle.BinAlloc.SizeClasses
import PrototypeBundle.BinAlloc.Lists
import PrototypeBundle.ProtoE.Runs
import PrototypeBundle.ProtoG.Wakeup
import PrototypeBundle.Tracing.MarkList
import PrototypeBundle.Tracing.Gc2Runs
import PrototypeBundle.LockFree.Lifetimes
import PrototypeBundle.Radix.Evaluate
import PrototypeBundle.Copying.AsyncMemcpy
import PrototypeBundle.PageCache.Bin
import PrototypeBundle.PageCache.OutOfMemory
import PrototypeBundle.SpinLock.Waiting
import PrototypeBundle.ProtoE.Accesses
import PrototypeBundle.SpinLock.Vector
import PrototypeBundle.Bitmap.Threads
import PrototypeBundle.ProtoF.WaitFor
import PrototypeBundle.ProtoF.Shutdown
import PrototypeBundle.Tracing.Twins
import PrototypeBundle.Gc.Programs
import PrototypeBundle.ProtoE.Stopping
import PrototypeBundle.BinAlloc.SharedLists
import PrototypeBundle.Buddy.Contents
