import Ecos.Lib.Run
import Ecos.Lib.Heap
import Ecos.Lib.CString
import Ecos.Lib.LinkedList
import Ecos.Posix.NamedSemaphore
import Ecos.Posix.RegistryInvariant
import Ecos.Posix.Namespace
import Ecos.Posix.Lifetime
import Ecos.Posix.Failure
import Ecos.Ethread.RecursiveMutex
import Ecos.Ethread.Once
import Ecos.Lib.FreeMap
import Ecos.Ethread.ThreadData
import Ecos.Ethread.Ownership
import Ecos.Ethread.Specific
import Ecos.Ethread.Registration
import Ecos.Ethread.KeyWords
import Ecos.Ethread.KeyMap
import Ecos.Ethread.Unallocated
import Ecos.Ethread.Exit
import Ecos.Ethread.ExitPasses
import Ecos.Ethread.KeyCreation
import Ecos.Ethread.ExitRace
import Ecos.Lib.Bytes
import Ecos.Fat.File
import Ecos.Fat.Cursor
import Ecos.Fat.Coherence
import Ecos.Fat.ByteFile
import Ecos.Fat.FailedWrite
import Ecos.Fat.DiskFull
import Ecos.Fat.Offset
import Ecos.Fat.EmptyWrite
import Ecos.Fat.Lookup
import Ecos.Fat.Directory
import Ecos.Fat.NodeTree
import Ecos.Fat.Memory
import Ecos.Fat.PathWalk
import Ecos.Fat.FailedOpen
import Ecos.Fat.References
import Ecos.Fat.RenameTarget
import Ecos.Fat.InUse
import Ecos.Nspr.Atomic
import Ecos.Lib.RefList
import Ecos.Posix.SemaphoreTable
import Ecos.Sqlite.UnixFile
import Ecos.Sqlite.Links
import Ecos.Sqlite.Exclusion
import Ecos.Sqlite.Balance
import Ecos.Sqlite.FileNames
import Ecos.Lib.RecordLocks
import Ecos.Sqlite.PosixLocks
import Ecos.Sqlite.PosixInvariant
import Ecos.Sqlite.PosixExclusion
import Ecos.Lib.RingQueue
import Ecos.Eth.Rltk8139
import Ecos.Lib.RingLog
import Ecos.Eth.ReceiveChip
import Ecos.Eth.ReceiveRing
import Ecos.Lib.Crc
import Ecos.Eth.EtherCrc
import Ecos.Eth.MulticastFilter
import Ecos.Lib.SerialEeprom
import Ecos.Eth.Eeprom
import Ecos.Lib.ArrayProgram
import Ecos.Lib.CrashProgram
import Ecos.Lib.Storage
import Ecos.Sqlite.JournalFormat
import Ecos.Sqlite.Pager
import Ecos.Sqlite.PagerAtomicity
