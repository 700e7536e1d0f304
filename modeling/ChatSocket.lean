import ChatSocket.Kit.Prog
import ChatSocket.Kit.Machine
import ChatSocket.Kit.Keyed
import ChatSocket.Kit.CString
import ChatSocket.Kit.Frames
import ChatSocket.Common
import ChatSocket.Wire
import ChatSocket.Room.Basic
import ChatSocket.Room.Pairs
import ChatSocket.Room.Bindings
import ChatSocket.Server.Queue
import ChatSocket.Server.Mgmt
import ChatSocket.Server.Registry
import ChatSocket.Server.Atomic
import ChatSocket.Server.Acts
import ChatSocket.Server.Refines
import ChatSocket.Server.Mutex
import ChatSocket.Server.Chats
import ChatSocket.Server.Requests
import ChatSocket.Server.Links
import ChatSocket.Server.Names
import ChatSocket.Server.Thread
import ChatSocket.Client.Lib
import ChatSocket.Client.User
import ChatSocket.Client.IoThread
import ChatSocket.Client.Flags
import ChatSocket.Framing
import ChatSocket.Network.News
import ChatSocket.Network.Basic
import ChatSocket.Network.Agreement
import ChatSocket.Kit.Sections
import ChatSocket.Server.Points
import ChatSocket.Host.Basic
import ChatSocket.Host.Steps
import ChatSocket.Server.Nodes
import ChatSocket.Host.Sound
import ChatSocket.Host.Integrity
import ChatSocket.Host.Slots
import ChatSocket.Host.Pointers
import ChatSocket.Host.Traced
import ChatSocket.Host.Handshake
import ChatSocket.Server.Sections
import ChatSocket.Host.Disconnects
import ChatSocket.Host.Together
import ChatSocket.Host.Acceptors
import ChatSocket.Host.Claims
import ChatSocket.Host.Requesters
import ChatSocket.Host.Alone
import ChatSocket.Server.Standing
import ChatSocket.Server.Conversation
import ChatSocket.Server.Negotiation
import ChatSocket.Network.Partners
import ChatSocket.Kit.Chain
import ChatSocket.Server.Heap
import ChatSocket.Server.FdMap
import ChatSocket.Kit.Fields
import ChatSocket.Server.Listing
import ChatSocket.Network.Addressing
import ChatSocket.Host.Pairing
import ChatSocket.Host.Signals
import ChatSocket.Kit.Reads
import ChatSocket.Server.Payload
import ChatSocket.Server.Replies
import ChatSocket.Server.Farewell
import ChatSocket.Client.Conduct
import ChatSocket.Client.Commands
import ChatSocket.Client.Lines
import ChatSocket.Client.Remains
import ChatSocket.Kit.Turns
import ChatSocket.Host.Turns
import ChatSocket.Kit.Scan
import ChatSocket.Host.Walks
import ChatSocket.Host.Shutdown
import ChatSocket.Host.Joins
import ChatSocket.Kit.Runs
import ChatSocket.Host.Snapshot
import ChatSocket.Host.Relays
import ChatSocket.Host.Answers
import ChatSocket.Client.Screen
import ChatSocket.Client.Program
import ChatSocket.Client.Process
import ChatSocket.Client.Attribution
import ChatSocket.Host.Texts
import ChatSocket.Host.Called
import ChatSocket.Kit.Serial
import ChatSocket.Host.Serial
import ChatSocket.Host.Enacts
import ChatSocket.Network.Exchange
import ChatSocket.Network.Delivery
import ChatSocket.Network.Greeting
