import SkyOS.Sync.RWLock
import SkyOS.Sync.SemaphoreCount
import SkyOS.Vm.UserAreas
import SkyOS.Sched.Scheduler
import SkyOS.Handles.CloseRace
import SkyOS.Sync.WakeUps
import SkyOS.Cache.CacheLock
import SkyOS.Vfs.MountedRoot
import SkyOS.Sched.TimerRuns
import SkyOS.Fat32.GetDirectoryEntry
import SkyOS.Gui.Keyboard
import SkyOS.Vfs.FileDescriptor
import SkyOS.Modules.LoadDLL
import SkyOS.Windowing.Damage
import SkyOS.Modules.FixIAT
import SkyOS.Gui.SkyQueue
import SkyOS.Mint.FreeClusters
import SkyOS.Mint.CriticalSections
import SkyOS.Storage.StorageManager
import SkyOS.Gui.KeyboardController
import SkyOS.Storage.Collection
import SkyOS.RamDisk.RamDiskAdaptor
import SkyOS.Mint.SeekRuns
import SkyOS.Mint.FailedOpen
import SkyOS.Mint.ChainRelease
import SkyOS.Heap.BestFit
import SkyOS.Heap.Coalescing
import SkyOS.Heap.IndexCapacity
import SkyOS.Heap.SizeArithmetic
import SkyOS.Memory.FrameSearch
import SkyOS.Memory.OutOfBlocks
import SkyOS.Memory.IdentityMap
import SkyOS.Vm.FreeRange
import SkyOS.Vm.HandleFault
import SkyOS.Vm.WindowLeak
import SkyOS.Cache.SwapAccounting
import SkyOS.Vfs.GetDirEntry
import SkyOS.RamDisk.FindRelative
import SkyOS.RamDisk.IgnorePatterns
import SkyOS.RamDisk.LoadBounds
import SkyOS.Fat.MakeDir
import SkyOS.Fat32.EnumerateFiles
import SkyOS.Fat32.ReadWidths
import SkyOS.Stdio.Fgets
import SkyOS.Stdio.FormatLaw
import SkyOS.Vfs.RemoveDir
import SkyOS.Modules.BaseRelocation
import SkyOS.Storage.Partitions
import SkyOS.Windowing.LineClipper
import SkyOS.Windowing.Optimize
import SkyOS.Gui.SheetMap
import SkyOS.Windowing.MouseRouting
import SkyOS.Windowing.StretchBlit
import SkyOS.Containers.Deque
import SkyOS.Fat32.MergePath
import SkyOS.Strings.Strtok
import SkyOS.Console.GetCommand
import SkyOS.Stdio.ReadBack
