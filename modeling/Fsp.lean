import Fsp.BufferedDisk
import Fsp.Client.AbsPath
import Fsp.Client.Backoff
import Fsp.Client.Complete
import Fsp.Client.Dir
import Fsp.Client.DirBuffer
import Fsp.Client.Du
import Fsp.Client.Interact
import Fsp.Client.PasswordSuffix
import Fsp.Client.PathLevels
import Fsp.Client.Requests
import Fsp.Client.Resend
import Fsp.Client.Searched
import Fsp.Client.Transfer
import Fsp.Client.Tree
import Fsp.Disk
import Fsp.Find.Ffind
import Fsp.Find.Meaning
import Fsp.Find.Options
import Fsp.Find.Parens
import Fsp.Find.Plan
import Fsp.Find.Squish
import Fsp.Lib.Bytes
import Fsp.Lib.Effect
import Fsp.Lib.Ledger
import Fsp.Lib.Lexical
import Fsp.Lib.RenewedKeys
import Fsp.Lib.Ring
import Fsp.Lib.ShortCircuit
import Fsp.Lib.Window
import Fsp.LinkedDisk
import Fsp.Memory
import Fsp.OpenDisk
import Fsp.Posix
import Fsp.Protocol.Agreement
import Fsp.Protocol.Conversation
import Fsp.Protocol.Damage
import Fsp.Protocol.DirEnds
import Fsp.Protocol.DirListing
import Fsp.Protocol.Exchange
import Fsp.Protocol.LateRequests
import Fsp.Protocol.ListedReads
import Fsp.Protocol.ListedSite
import Fsp.Protocol.Precheck
import Fsp.Protocol.ShownTree
import Fsp.Protocol.StatListed
import Fsp.Protocol.Version
import Fsp.Scenario
import Fsp.Server.AccessFiles
import Fsp.Server.Acl
import Fsp.Server.Answers
import Fsp.Server.Cached
import Fsp.Server.Changes
import Fsp.Server.Commands
import Fsp.Server.Conf
import Fsp.Server.ConfLayout
import Fsp.Server.ConfSettings
import Fsp.Server.Copies
import Fsp.Server.DirBlocks
import Fsp.Server.Dispatch
import Fsp.Server.Downloads
import Fsp.Server.FifoBytes
import Fsp.Server.FifoCache
import Fsp.Server.FifoDestroy
import Fsp.Server.FifoRing
import Fsp.Server.File
import Fsp.Server.Handles
import Fsp.Server.Home
import Fsp.Server.Host
import Fsp.Server.HostArray
import Fsp.Server.HostMask
import Fsp.Server.HostTypes
import Fsp.Server.InTree
import Fsp.Server.Iprange
import Fsp.Server.Lines
import Fsp.Server.Listing
import Fsp.Server.Lookup
import Fsp.Server.MadeDirs
import Fsp.Server.NamesOnce
import Fsp.Server.OwnBytes
import Fsp.Server.OwnerLines
import Fsp.Server.Path
import Fsp.Server.PathGrammar
import Fsp.Server.PathParts
import Fsp.Server.Phases
import Fsp.Server.RealName
import Fsp.Server.Refused
import Fsp.Server.Repeats
import Fsp.Server.ReplySize
import Fsp.Server.Rounds
import Fsp.Server.SavedListing
import Fsp.Server.Sent
import Fsp.Server.Sessions
import Fsp.Server.Stat
import Fsp.Server.State
import Fsp.Server.Steps
import Fsp.Server.Stored
import Fsp.Server.Throughput
import Fsp.Server.ThroughputWindow
import Fsp.Server.Validate
import Fsp.Wire
