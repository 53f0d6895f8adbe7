import AstraCore.MuxEndToEnd
import AstraCore.VmessReplay
import AstraCore.VlessHandshake
import AstraCore.VmessBody
import AstraCore.Shadowsocks2022Inbound
import AstraCore.ShadowsocksIntegrity
import AstraCore.ShadowsocksSafety
import AstraCore.ShadowsocksInbound
import AstraCore.SocksHandshake
import AstraCore.HttpTunnel
import AstraCore.HttpUpgrade
import AstraCore.HttpHeader
import AstraCore.KcpTimers
import AstraCore.KcpListener
import AstraCore.SplitUpload
import AstraCore.SplitSession
import AstraCore.ChunkedBody
import AstraCore.ConfigMerge
import AstraCore.DnsBuilder
import AstraCore.Hysteria
import AstraCore.BufferedWriter
import AstraCore.ReadVReader
import AstraCore.ChunkRoundTrip
import AstraCore.AuthenticationReader
import AstraCore.Salamander
import AstraCore.MuxDial
import AstraCore.MuxStream
import AstraCore.MuxTeardown
import AstraCore.BalancerOverride
import AstraCore.KcpFlowControl
import AstraCore.MultiBuffers
import AstraCore.KcpSizes
import AstraCore.KcpAcks
import AstraCore.CfbStream
import AstraCore.ClientHello
import AstraCore.NonceGenerator
import AstraCore.SocksUdp
import AstraCore.VlessUsers
import AstraCore.DnsWire
import AstraCore.FakeDnsPool
import AstraCore.JsonComments
import AstraCore.DomainConditions
import AstraCore.RoundRobin
import AstraCore.Icmp
import AstraCore.ReplayFilter
