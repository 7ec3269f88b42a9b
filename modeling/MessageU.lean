import MessageU.Library.Interaction
import MessageU.Library.EventRun
import MessageU.Library.LittleEndian
import MessageU.Library.Buffer
import MessageU.Library.Mailbox
import MessageU.Library.Transactions
import MessageU.Library.Updates
import MessageU.Library.Replicas
import MessageU.Library.History
import MessageU.Server.Protocol
import MessageU.Server.Tables
import MessageU.Server.Limits
import MessageU.Server.Mailboxes
import MessageU.Server.Sockets
import MessageU.Server.Locking
import MessageU.Server.HandleClient
import MessageU.Server.Environment
import MessageU.Server.Linearization
import MessageU.Client.ClientList
import MessageU.Client.Addressing
import MessageU.Client.Batches
import MessageU.Client.RecordParser
import MessageU.Client.Online
import MessageU.Client.FileManager
import MessageU.Client.ServerInfo
import MessageU.Client.Menu
import MessageU.System.RequestFormat
import MessageU.System.ResponseFormat
import MessageU.System.SharedConnection
import MessageU.System.FriendCache
import MessageU.System.FriendNames
import MessageU.System.Answers
import MessageU.System.PullOrder
import MessageU.System.Inbox
import MessageU.System.Pair
import MessageU.System.PairSound
import MessageU.System.KeyAgreement
import MessageU.System.TextDelivery
import MessageU.System.Session
import MessageU.System.RegisteredIdentity
import MessageU.System.Survival
import MessageU.System.Acquaintances
import MessageU.System.NeverRefused
import MessageU.System.Lifetime
import MessageU.Client.Startup
import MessageU.System.Restart
import MessageU.Server.Blindness
import MessageU.Server.Ownership
import MessageU.Server.PortFile
import MessageU.Server.Answering
import MessageU.System.Endpoint
