import GSConferencing.Lib.Run
import GSConferencing.Include.ListHead
import GSConferencing.Serv.Strutil
import GSConferencing.Serv.CmdHandler
import GSConferencing.Serv.Dev
import GSConferencing.Serv.Tag
import GSConferencing.Serv.Devctl
import GSConferencing.Serv.Ptc
import GSConferencing.Serv.Discuss
import GSConferencing.Serv.Server
import GSConferencing.Serv.Frame
import GSConferencing.Serv.OpenView
import GSConferencing.Serv.Mics
import GSConferencing.Serv.OpenList
import GSConferencing.Serv.OpenRuns
import GSConferencing.Serv.MixSlots
import GSConferencing.Serv.Regist
import GSConferencing.Serv.RegistEffect
import GSConferencing.Serv.RegistRuns
import GSConferencing.Serv.VoteEffect
import GSConferencing.Serv.Votectrl
import GSConferencing.Serv.VoteInv
import GSConferencing.Serv.VoteRefs
import GSConferencing.Serv.VoteRecover
import GSConferencing.Serv.VoteTally
import GSConferencing.Client.Recent
import GSConferencing.Lib.Ring
import GSConferencing.Lib.Window
import GSConferencing.Include.Pack
import GSConferencing.Serv.Brcmd
import GSConferencing.Client.Brcast
import GSConferencing.Client.BrcastMulti
import GSConferencing.Client.Video
import GSConferencing.Include.Cfifo
import GSConferencing.Client.Rbudp
import GSConferencing.Client.RbudpRecv
import GSConferencing.Client.RbudpOrder
import GSConferencing.Client.RbudpRepair
import GSConferencing.Client.VideoRuns
import GSConferencing.Include.Encode
import GSConferencing.Serv.Network
import GSConferencing.Lib.Lines
import GSConferencing.Serv.Manage
import GSConferencing.Serv.Camera
import GSConferencing.Lib.Places
import GSConferencing.Serv.Packet
import GSConferencing.Serv.Mixing
import GSConferencing.Serv.Buffers
import GSConferencing.Serv.MixFrame
import GSConferencing.Serv.BufferRuns
import GSConferencing.Client.NetAudio
import GSConferencing.Client.Channel
import GSConferencing.Client.Mix
import GSConferencing.Client.MixOrder
import GSConferencing.Serv.SubView
import GSConferencing.Serv.Subscribe
import GSConferencing.Serv.SubRuns
import GSConferencing.Serv.InterpView
import GSConferencing.Serv.InterpRuns
import GSConferencing.Serv.Md
import GSConferencing.Serv.Snapshot
import GSConferencing.Serv.Mirror
import GSConferencing.Cmd.ParseCmd
import GSConferencing.Serv.Msgctrl
import GSConferencing.Client.Msgctrl
import GSConferencing.Client.Ucast
import GSConferencing.Client.UcastRuns
import GSConferencing.Client.DevInfo
import GSConferencing.Serv.MicSessions
import GSConferencing.Lib.Sessions
import GSConferencing.Serv.Chairs
import GSConferencing.Serv.Masters
import GSConferencing.Serv.Channels
import GSConferencing.Serv.VideoCast
import GSConferencing.Lib.Items
import GSConferencing.Serv.Roster
import GSConferencing.Serv.OnlineStats
import GSConferencing.Serv.DevEnts
import GSConferencing.Serv.RegistRestart
import GSConferencing.Serv.Failures
import GSConferencing.Serv.Presence
import GSConferencing.Lib.Coding
import GSConferencing.Client.Cast
import GSConferencing.Serv.Admission
import GSConferencing.Serv.Outstanding
import GSConferencing.Serv.MixCall
import GSConferencing.Serv.MixContent
import GSConferencing.Serv.VoteFrame
import GSConferencing.Client.Pcm
import GSConferencing.Client.MixQueues
import GSConferencing.Client.MixDups
import GSConferencing.Client.MixSamples
import GSConferencing.Client.AudioDups
import GSConferencing.Cmd.CmdStruct
import GSConferencing.Client.RecvTcp
import GSConferencing.Client.VideoBounds
import GSConferencing.Serv.RecvAudio
import GSConferencing.Client.Xcast
import GSConferencing.Serv.Repeat
import GSConferencing.Serv.RepeatRuns
import GSConferencing.Serv.PtcStack
import GSConferencing.Serv.Bcasts
import GSConferencing.Client.Resample
import GSConferencing.Cmd.IdList
import GSConferencing.Client.MsgctrlQuery
import GSConferencing.Client.DevList
import GSConferencing.Lib.Fill
import GSConferencing.Serv.Members
import GSConferencing.Lib.HashChain
import GSConferencing.Include.Hash
import GSConferencing.Serv.MdLinks
import GSConferencing.Serv.PackCache
import GSConferencing.Client.PcmStereo
import GSConferencing.Include.CfifoRuns
import GSConferencing.Include.EncodeBuf
import GSConferencing.Client.PcmMix
import GSConferencing.Lib.CText
import GSConferencing.Serv.IncBuf
import GSConferencing.Lib.Tally
import GSConferencing.Threadpool.Pool
import GSConferencing.Threadpool.PoolRuns
import GSConferencing.Serv.Async
import GSConferencing.Include.Queue
import GSConferencing.Serv.Handlers
import GSConferencing.Serv.Proceed
import GSConferencing.Client.SendCmd
import GSConferencing.Serv.Connections
import GSConferencing.Serv.Hbeat
import GSConferencing.Lib.Digest
import GSConferencing.Sha.Sha128
import GSConferencing.Include.Cksum
import GSConferencing.Serv.Passwd
import GSConferencing.Serv.MicSaves
import GSConferencing.Serv.MicRestart
