import BlankChat.Client.PayloadFormatter
import BlankChat.Core.Json
import BlankChat.Crypto.KeyExchange
import BlankChat.Crypto.SymmetricCipher
import BlankChat.Lib.Map
import BlankChat.Network.ReadLoop
import BlankChat.Network.TcpSession
import BlankChat.Server.Relay
import BlankChat.Client.ContactStorage
import BlankChat.Client.AddressBook
import BlankChat.Cli.Repl
import BlankChat.Cli.Action
import BlankChat.Cli.SessionOrigin
import BlankChat.Cli.ForwardSecrecy
import BlankChat.Cli.RequestReplay
import BlankChat.Lib.Rotation
import BlankChat.Session.World
import BlankChat.Session.Refinement
import BlankChat.Session.Simulation
import BlankChat.Session.Agreement
import BlankChat.Lib.Handover
import BlankChat.Session.Mailboxes
import BlankChat.Lib.Run
import BlankChat.Cli.Delivery
import BlankChat.Client.History
import BlankChat.Cli.ContactInvariant
import BlankChat.Cli.Persistence
import BlankChat.Cli.Traffic
import BlankChat.Cli.DrawOwner
import BlankChat.Cli.Routing
import BlankChat.Cli.KeyLifetime
import BlankChat.Lib.Handshake
import BlankChat.Session.Handshake
import BlankChat.Cli.RotationEffect
import BlankChat.Cli.Recording
import BlankChat.Cli.SendLimit
import BlankChat.Cli.Polling
import BlankChat.Lib.WritePump
import BlankChat.Network.WriteQueues
import BlankChat.Network.ProofOfWork
import BlankChat.Client.HistoryFile
import BlankChat.Network.TorHandshake
import BlankChat.Core.SecureString
import BlankChat.Crypto.Bip39
import BlankChat.Cli.Dispatch
import BlankChat.Core.HexCoding
import BlankChat.Server.CleanSlate
import BlankChat.Lib.Scan
import BlankChat.Network.MemoryMonitor
import BlankChat.Network.Progress
import BlankChat.Core.JsonCut
import BlankChat.Client.SaveFault
import BlankChat.Lib.Service
import BlankChat.System.Link
import BlankChat.System.Deployment
import BlankChat.System.Chat
import BlankChat.Cli.Provenance
import BlankChat.Session.Authenticity
import BlankChat.Cli.Shell
import BlankChat.Cli.Startup
import BlankChat.Server.TcpServer
import BlankChat.Network.TorControl
import BlankChat.Core.LockedMemory
import BlankChat.Cli.Screen
import BlankChat.Lib.Draining
import BlankChat.Session.Response
import BlankChat.Session.Arrival
import BlankChat.Core.JsonLineCut
import BlankChat.Client.HistoryFault
