import SimpleWeb.Delivery
import SimpleWeb.SizeLimit
import SimpleWeb.Overread
import SimpleWeb.FrameCodec
import SimpleWeb.Base64
import SimpleWeb.Cut
import SimpleWeb.Strings
import SimpleWeb.WSCrypto
import SimpleWeb.Http
import SimpleWeb.StartLine
import SimpleWeb.HeadEnd
import SimpleWeb.QueryString
import SimpleWeb.Attributes
import SimpleWeb.ConnectionMap
import SimpleWeb.FileServing
import SimpleWeb.MessageCallbacks
import SimpleWeb.ScopeRunner
import SimpleWeb.StatusCode
import SimpleWeb.Handshake
import SimpleWeb.Upgrade
import SimpleWeb.DeliveredSize
import SimpleWeb.HandshakeAgree
import SimpleWeb.SendQueue
import SimpleWeb.Sending
import SimpleWeb.CloseHandshake
import SimpleWeb.ControlFrames
import SimpleWeb.Closing
import SimpleWeb.ClientLifecycle
import SimpleWeb.Lifecycle
import SimpleWeb.Pieces
import SimpleWeb.ServerBase
import SimpleWeb.ConnectionRegistry
import SimpleWeb.LengthFields
import SimpleWeb.ChunkLimit
import SimpleWeb.UnsetOnError
import SimpleWeb.RequestHead
import SimpleWeb.ChunkedBody
import SimpleWeb.Pipelining
import SimpleWeb.ChunkedEnd
import SimpleWeb.Response
import SimpleWeb.ResponseWrite
import SimpleWeb.TooLarge
import SimpleWeb.Unicode
import SimpleWeb.ServeFile
import SimpleWeb.DefaultResponse
import SimpleWeb.UpgradePaths
import SimpleWeb.NoThrow
import SimpleWeb.WSCryptoBounds
import SimpleWeb.ClientAddress
import SimpleWeb.Date
import SimpleWeb.Sha1
import SimpleWeb.WSCryptoSha1
import SimpleWeb.WSCryptoSha1Bounds
import SimpleWeb.Transport
import SimpleWeb.Settling
import SimpleWeb.Room
import SimpleWeb.Hub
import SimpleWeb.Broadcast
import SimpleWeb.Watch
import SimpleWeb.Timeouts
import SimpleWeb.ClientConnect
import SimpleWeb.ConnectionTimeouts
import SimpleWeb.RequestTimeouts
