import MarsNwe.Lib.KeyedFile
import MarsNwe.Lib.ByteBuf
import MarsNwe.Lib.CText
import MarsNwe.Lib.Machine
import MarsNwe.Lib.BoundedSet
import MarsNwe.Lib.Packing
import MarsNwe.Lib.Formatted
import MarsNwe.Lib.RecordLock
import MarsNwe.Net
import MarsNwe.Tools
import MarsNwe.Bindery.Records
import MarsNwe.Bindery.Access
import MarsNwe.Bindery.Objects
import MarsNwe.Bindery.Properties
import MarsNwe.Bindery.Requests
import MarsNwe.Bindery.Steps
import MarsNwe.Bindery.NameIndex
import MarsNwe.Bindery.PropertyEffects
import MarsNwe.Bindery.Atomic
import MarsNwe.Bindery.Values
import MarsNwe.Bindery.Deletion
import MarsNwe.Bindery.MemberSet
import MarsNwe.Bindery.Confidential
import MarsNwe.Bindery.Compress
import MarsNwe.Bindery.Export
import MarsNwe.Bindery.PropNames
import MarsNwe.Login.Crypt
import MarsNwe.Login.LoginControl
import MarsNwe.Login.Passwords
import MarsNwe.Login.Restrictions
import MarsNwe.Login.Connections
import MarsNwe.Login.LoginSound
import MarsNwe.Share.ShareFile
import MarsNwe.Share.Exclusion
import MarsNwe.Share.FileLock
import MarsNwe.Share.ShareLock
import MarsNwe.Lib.SlotTable
import MarsNwe.Sema.Semaphores
import MarsNwe.Sema.Accounting
import MarsNwe.Lib.Nibbles
import MarsNwe.Login.Newpass
import MarsNwe.Login.ChangePassword
import MarsNwe.Login.PasswordHistory
import MarsNwe.Route.Rip
import MarsNwe.Route.RipPackets
import MarsNwe.Route.RouteTable
import MarsNwe.Connect.DirSearch
import MarsNwe.Connect.Enumeration
import MarsNwe.Lib.AgedSlots
import MarsNwe.Trustee.Nodes
import MarsNwe.Trustee.EffRights
import MarsNwe.Trustee.Ways
import MarsNwe.Trustee.RightsCache
import MarsNwe.Trustee.CacheSound
import MarsNwe.Trustee.ReadNodes
import MarsNwe.Lib.WordSets
import MarsNwe.Trustee.Grant
import MarsNwe.Trustee.Inheritance
import MarsNwe.Trustee.GrantSound
import MarsNwe.Connect.ConfinedNames
import MarsNwe.Lib.LexPath
import MarsNwe.Lib.Logged
import MarsNwe.Lib.Calls
import MarsNwe.Lib.RingSearch
import MarsNwe.Lib.Layout
import MarsNwe.Connect.PathNames
import MarsNwe.Connect.PathOps
import MarsNwe.Connect.Confinement
import MarsNwe.File.Handles
import MarsNwe.File.Transfers
import MarsNwe.File.CreatOpen
import MarsNwe.File.Requests
import MarsNwe.File.Offsets
import MarsNwe.Lib.Window
import MarsNwe.File.ServerCopy
import MarsNwe.File.MappedReads
import MarsNwe.File.MappingAgrees
import MarsNwe.File.Slots
import MarsNwe.File.Extpipe
import MarsNwe.Queue.Jobs
import MarsNwe.Queue.Requests
import MarsNwe.Queue.Files
import MarsNwe.Queue.Changes
import MarsNwe.Queue.JobList
import MarsNwe.Queue.Persistence
import MarsNwe.Queue.Servicing
import MarsNwe.Lib.Traced
import MarsNwe.Ncpserv.ConnTable
import MarsNwe.Ncpserv.Requests
import MarsNwe.Ncpserv.Children
import MarsNwe.Trustee.Writers
import MarsNwe.Trustee.SafeCache
import MarsNwe.Trustee.SelfGrant
import MarsNwe.Lib.KeyedSlots
import MarsNwe.Route.SapServers
import MarsNwe.Nwserv.Watchdog
import MarsNwe.Nwserv.WatchdogSound
import MarsNwe.Nwserv.OwnData
import MarsNwe.Nwconn.Packets
import MarsNwe.Nwconn.HandledOnce
import MarsNwe.Nwbind.Dispatch
import MarsNwe.Nwbind.Isolation
import MarsNwe.Lib.Stateful
import MarsNwe.Lib.PinnedSlots
import MarsNwe.Namspace.BaseTable
import MarsNwe.Namspace.NwPaths
import MarsNwe.Namspace.Entries
import MarsNwe.Namspace.Matching
import MarsNwe.Namspace.Search
import MarsNwe.Namspace.Requests
import MarsNwe.Namspace.TableSound
import MarsNwe.Lib.Glob
import MarsNwe.NameMatch
import MarsNwe.Bindery.ExactLookup
import MarsNwe.Bindery.PropertyIds
import MarsNwe.Share.Unlock
import MarsNwe.Share.LockSets
import MarsNwe.Share.RecordTable
import MarsNwe.Namspace.VolHandles
import MarsNwe.Connect.WildRename
import MarsNwe.Connect.DirFold
import MarsNwe.Connect.DirBuffer
import MarsNwe.Lib.Lookups
import MarsNwe.Nwconn.PacketBounds
import MarsNwe.Namspace.PathBounds
import MarsNwe.Namspace.FullPaths
import MarsNwe.MatchBounds
import MarsNwe.Lib.PaddedField
import MarsNwe.DosPatterns
import MarsNwe.Nwconn.Burst
import MarsNwe.Trustee.Store
import MarsNwe.Trustee.StoreRuns
import MarsNwe.Trustee.PathScan
import MarsNwe.Trustee.StoreNames
import MarsNwe.Trustee.PathsListed
import MarsNwe.File.Attributes
import MarsNwe.File.AttributesKept
import MarsNwe.Queue.OwnFiles
import MarsNwe.Namspace.TableRuns
import MarsNwe.Connect.HandleRuns
import MarsNwe.Connect.ConfinedRuns
import MarsNwe.Config.IniFile
import MarsNwe.Config.VolumesKept
import MarsNwe.Nwbind.Messages
import MarsNwe.Connect.DirStreams
