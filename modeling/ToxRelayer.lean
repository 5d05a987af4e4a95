import ToxRelayer.CString
import ToxRelayer.Telegram
import ToxRelayer.TelegramRoundTrip
import ToxRelayer.ControlRoundTrip
import ToxRelayer.TelegramLines
import ToxRelayer.MetadataSerials
import ToxRelayer.TelegramResend
import ToxRelayer.SnTracker
import ToxRelayer.NumberedStream
import ToxRelayer.TrackerStream
import ToxRelayer.AcceptOnce
import ToxRelayer.CheckedMemory
import ToxRelayer.TrackerMemory
import ToxRelayer.OutstandingSerials
import ToxRelayer.DecoderMemory
import ToxRelayer.EncoderMemory
import ToxRelayer.Relay
import ToxRelayer.KeyedTable
import ToxRelayer.MsgDatabase
import ToxRelayer.ArchiveAppend
import ToxRelayer.ArchiveHistory
import ToxRelayer.StepRun
import ToxRelayer.RingIndex
import ToxRelayer.MsgQueue
import ToxRelayer.MsgQueueInvariant
import ToxRelayer.MsgQueueLedger
import ToxRelayer.MsgQueueOrder
import ToxRelayer.MsgQueueSound
import ToxRelayer.MsgQueueRoom
import ToxRelayer.MsgQueueBudget
import ToxRelayer.MsgQueueDrain
import ToxRelayer.MsgQueueService
import ToxRelayer.MsgQueueReceipts
import ToxRelayer.LittleEndian
import ToxRelayer.MqPersist
import ToxRelayer.MqPersistRestore
import ToxRelayer.MqPersistRoundTrip
import ToxRelayer.MqPersistWhole
import ToxRelayer.MqPersistAtomic
import ToxRelayer.MqPersistMemory
import ToxRelayer.QueueMirror
import ToxRelayer.Directory
import ToxRelayer.AddressAgreement
import ToxRelayer.HeaderFields
import ToxRelayer.Forwarding
import ToxRelayer.Routing
import ToxRelayer.ContactDirectory
import ToxRelayer.Restart
import ToxRelayer.Replay
import ToxRelayer.ConsoleSend
import ToxRelayer.GapLink
import ToxRelayer.RoutingSeparation
import ToxRelayer.SenderMix
import ToxRelayer.GapRequests
import ToxRelayer.GapRecovery
import ToxRelayer.SerialMirror
import ToxRelayer.ToxTransport
import ToxRelayer.ReadReceipts
import ToxRelayer.FriendNumbers
import ToxRelayer.FriendNumberReuse
import ToxRelayer.SlotStorage
import ToxRelayer.GroupChats
import ToxRelayer.GroupDirectory
import ToxRelayer.GroupRoom
import ToxRelayer.CommandLine
import ToxRelayer.CommandSyntax
import ToxRelayer.Masterlist
import ToxRelayer.Commands
import ToxRelayer.GroupPurge
import ToxRelayer.MasterKeys
import ToxRelayer.MasterOnly
import ToxRelayer.GroupEffects
import ToxRelayer.Conferences
import ToxRelayer.GroupPasswords
import ToxRelayer.IntegerText
import ToxRelayer.InactivePurge
import ToxRelayer.TextLines
import ToxRelayer.SectionedStore
import ToxRelayer.IniFile
import ToxRelayer.IniValue
import ToxRelayer.IniRewrite
import ToxRelayer.IniDocument
import ToxRelayer.IniStore
import ToxRelayer.SettingsEntries
import ToxRelayer.IncomingMessage
import ToxRelayer.SettingsRestart
import ToxRelayer.RelayNetwork
import ToxRelayer.NodeNetwork
import ToxRelayer.EventLoop
import ToxRelayer.MessageDispatch
import ToxRelayer.Greeting
import ToxRelayer.RoomPresence
import ToxRelayer.ProfileFile
import ToxRelayer.ConsoleWords
import ToxRelayer.ConsoleLine
import ToxRelayer.ConsoleCommands
