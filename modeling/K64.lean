import K64.AtaTransfers
import K64.NetContentLength
import K64.XfsRecovery
import K64.XfsTransactions
import K64.XfsReadBounds
import K64.PhysicalMemoryMap
import K64.SchedulerFairness
import K64.SchedulerStops
import K64.FileDescriptors
import K64.ServiceBounds
import K64.ElfBalance
import K64.XfsBitmapLimit
import K64.TransmitRing
import K64.KlcsServiceCalls
import K64.ManagementAuthority
import K64.ServiceFileCalls
import K64.XfsctlChecks
import K64.MountExclusion
import K64.NetRequests
import K64.KpmDatabase
import K64.KpmDownloads
import K64.NetDns
import K64.RtlReceive
import K64.SudoScope
import K64.AcceptedPasswords
import K64.KlcsOpenModes
import K64.KlcsGetdents
import K64.ElfReads
import K64.ProgramArguments
import K64.UserSpaces
import K64.NetAddresses
import K64.TerminalTabs
import K64.EditorSessions
import K64.ShellSessions
import K64.InstallerRuns
import K64.PersonalityRuns
import K64.SchedulerSleep
import K64.BurstErrors
