import AoniContrib.HttpSig.Coverage
import AoniContrib.HttpSig.Server
import AoniContrib.Socket.Disconnect
import AoniContrib.Socket.Replace
import AoniContrib.Socket.Lost
import AoniContrib.Socket.Send
import AoniContrib.WebTransport.Reason
import AoniContrib.WebTransport.Deadlock
import AoniContrib.Socket.Dispatcher
import AoniContrib.Otel.Inert
import AoniContrib.Otel.Otlp
import AoniContrib.Ssh.Oidc
import AoniContrib.Dpop.Binding
import AoniContrib.Dpop.RoundTrip
import AoniContrib.WebTransport.CloseCapsule
import AoniContrib.WebTransport.Control
import AoniContrib.WebTransport.Ended
import AoniContrib.WebTransport.Leak
import AoniContrib.WebTransport.Dispatcher
import AoniContrib.Raptor.Wrapper
import AoniContrib.SocketIO.Ping
import AoniContrib.Ssh.Socks5
import AoniContrib.Ssh.KnownHosts
import AoniContrib.Grpc.Truncated
import AoniContrib.Webpush.RecordSize
import AoniContrib.Ssh.Sftp
import AoniContrib.SocketIO.Close
import AoniContrib.SocketIO.Heartbeat
import AoniContrib.SocketIO.Canonical
import AoniContrib.SocketIO.Connect
import AoniContrib.SocketIO.Limit
import AoniContrib.SocketIO.Placeholder
import AoniContrib.Otel.TraceParent
import AoniContrib.Otel.Attributes
import AoniContrib.HttpSig.Authority
import AoniContrib.Otel.Shutdown
import AoniContrib.SocketIO.Pending
import AoniContrib.SocketIO.Attempts
import AoniContrib.Auth.Window
import AoniContrib.Dpop.Canonical
import AoniContrib.Pkce.Redirect
import AoniContrib.HttpSig.Duplicates
import AoniContrib.HttpSig.VisitOrder
import AoniContrib.HttpSig.Append
import AoniContrib.WebTransport.ErrorCode
import AoniContrib.WebTransport.FlowControl
import AoniContrib.WebTransport.ShortWrite
import AoniContrib.Grpc.Reading
import AoniContrib.Grpc.Request
import AoniContrib.Ssh.Address
import AoniContrib.Ssh.Transfer
import AoniContrib.Ssh.Dial
import AoniContrib.Socket.Backoff
