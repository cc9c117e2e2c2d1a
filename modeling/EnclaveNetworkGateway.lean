import EnclaveNetworkGateway.Transition
import EnclaveNetworkGateway.Schedule
import EnclaveNetworkGateway.Sides
import EnclaveNetworkGateway.Conduit
import EnclaveNetworkGateway.PrefixCode
import EnclaveNetworkGateway.Fifo
import EnclaveNetworkGateway.HalfClosePipe
import EnclaveNetworkGateway.FrameCodec
import EnclaveNetworkGateway.DuplexPipe
import EnclaveNetworkGateway.Bridge
import EnclaveNetworkGateway.BridgeInvariant
import EnclaveNetworkGateway.Transfer
import EnclaveNetworkGateway.FailedSender
import EnclaveNetworkGateway.Link
import EnclaveNetworkGateway.Entg
import EnclaveNetworkGateway.Enta
import EnclaveNetworkGateway.EntaMove
import EnclaveNetworkGateway.EntaStream
import EnclaveNetworkGateway.EntaLedger
import EnclaveNetworkGateway.Reception
import EnclaveNetworkGateway.TunPacket
import EnclaveNetworkGateway.Tunnel
import EnclaveNetworkGateway.TunnelIntegrity
import EnclaveNetworkGateway.LinkQuiescence
import EnclaveNetworkGateway.BridgeStall
import EnclaveNetworkGateway.EntaQuiescence
import EnclaveNetworkGateway.TunnelShutdown
import EnclaveNetworkGateway.TunnelWork
import EnclaveNetworkGateway.TunnelCalm
import EnclaveNetworkGateway.TunnelDelivery
import EnclaveNetworkGateway.Ownership
import EnclaveNetworkGateway.Session
import EnclaveNetworkGateway.SessionProtocol
import EnclaveNetworkGateway.BridgeSession
import EnclaveNetworkGateway.TaskProgress
import EnclaveNetworkGateway.Shell
import EnclaveNetworkGateway.Netfilter
import EnclaveNetworkGateway.NetfilterCleanUp
import EnclaveNetworkGateway.CString
import EnclaveNetworkGateway.RatsTlsConf
import EnclaveNetworkGateway.ConfLayout
import EnclaveNetworkGateway.HandleOwnership
import EnclaveNetworkGateway.Process
import EnclaveNetworkGateway.CtrlC
import EnclaveNetworkGateway.GetStream
import EnclaveNetworkGateway.SessionProgress
import EnclaveNetworkGateway.GetStreamInvariant
import EnclaveNetworkGateway.EntgMain
import EnclaveNetworkGateway.EntgMainRun
import EnclaveNetworkGateway.EntgExit
import EnclaveNetworkGateway.Attestation
import EnclaveNetworkGateway.ShellText
import EnclaveNetworkGateway.ScriptText
import EnclaveNetworkGateway.ProcessLog
import EnclaveNetworkGateway.ProcessExit
import EnclaveNetworkGateway.NatPath
import EnclaveNetworkGateway.TcpStream
import EnclaveNetworkGateway.EchoServer
import EnclaveNetworkGateway.EchoIntegrity
import EnclaveNetworkGateway.EchoClient
import EnclaveNetworkGateway.EchoDemo
import EnclaveNetworkGateway.EntaMemory
