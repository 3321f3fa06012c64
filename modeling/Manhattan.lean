import Manhattan.Lib.Run
import Manhattan.Lib.Fd
import Manhattan.Lib.OwnedTable
import Manhattan.Lib.Mutex
import Manhattan.Lib.Buffer
import Manhattan.Lib.Text
import Manhattan.Sined.Conmgr
import Manhattan.Sined.Netmgr
import Manhattan.Mih.SocketHandler
import Manhattan.Sined.Pe
import Manhattan.Sined.Pass
import Manhattan.Sined.SocksTable
import Manhattan.Sined.Trigger
import Manhattan.Sined.Ack
import Manhattan.Sined.PolicyLock
import Manhattan.Sined.TableLife
import Manhattan.Sined.Datagram
import Manhattan.Sined.Query
import Manhattan.Sined.SetInterface
import Manhattan.Sined.Handshake
import Manhattan.Sined.Forward
import Manhattan.Sined.Children
import Manhattan.Sined.Reply
import Manhattan.Mih.Information
import Manhattan.Mih.LinkTable
import Manhattan.Middleware.ConnectionTable
import Manhattan.Middleware.PolicyModel
import Manhattan.Middleware.PolicyTrace
import Manhattan.Middleware.PolicyActivation
import Manhattan.Middleware.PolicyFile
import Manhattan.Sined.FirstRule
import Manhattan.Lib.Chain
import Manhattan.Sined.ConnectionList
import Manhattan.Sined.Links
import Manhattan.Lib.LockOrder
import Manhattan.Sined.Deadlock
import Manhattan.Lib.Roster
import Manhattan.Lib.Udp
import Manhattan.Middleware.LocationMgr
import Manhattan.Mih.Registration
import Manhattan.Umip.Handover
import Manhattan.Umip.Movement
import Manhattan.Libsine.SendBlock
import Manhattan.Ssm.Player
import Manhattan.Lib.Xml
import Manhattan.Sined.PolicyLoad
import Manhattan.Sined.PolicyMemory
import Manhattan.Sined.PolicyRender
import Manhattan.Sined.Location
import Manhattan.Sined.AddMessage
import Manhattan.Sined.DomainName
import Manhattan.Middleware.Srelay
import Manhattan.Sined.AppPath
import Manhattan.Lib.Handles
import Manhattan.Lib.Lines
import Manhattan.Sined.ClientPid
import Manhattan.Sined.ClientProcess
import Manhattan.Lib.InetText
import Manhattan.Sined.DumpConnection
import Manhattan.Sined.IpcBuffer
import Manhattan.Lib.Scan
import Manhattan.Middleware.NetworkQuery
import Manhattan.Middleware.PolicyBounds
import Manhattan.Lib.Guarded
import Manhattan.Middleware.PolicyArrays
import Manhattan.Middleware.PolicyValues
import Manhattan.Lib.Search
import Manhattan.Middleware.Replace
import Manhattan.Middleware.FormScan
import Manhattan.Middleware.PostAuth
import Manhattan.Mih.Respond
import Manhattan.Lib.CopyLoop
import Manhattan.Umip.AtHome
import Manhattan.Umip.Preference
import Manhattan.Hip.PrefListener
import Manhattan.Middleware.ClauseLoop
import Manhattan.Mih.DstTransaction
import Manhattan.Mih.Exchange
import Manhattan.Mih.LocalPool
import Manhattan.Lib.Codec
import Manhattan.Lib.Serial
import Manhattan.Mih.Archive
import Manhattan.Mih.Frame
import Manhattan.Umip.BindingCache
import Manhattan.Umip.BindingUpdate
import Manhattan.Umip.HomeAgent
import Manhattan.Umip.MobileNode
import Manhattan.Umip.Registration
