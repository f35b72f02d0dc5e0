import Mstd.CfgRoundTrip
import Mstd.Bitpk
import Mstd.SetupLog
import Mstd.SetupReads
import Mstd.WifiInit
import Mstd.TftpDownload
import Mstd.TftpArrival
import Mstd.TftpPeers
import Mstd.TftpReturns
import Mstd.CfgAccept
import Mstd.CfgCodec
import Mstd.CfgUnsafe
import Mstd.CfgEnumRead
import Mstd.CfgLayout
import Mstd.TftpInOrder
import Mstd.TftpReadAcks
import Mstd.CfgEnumSpell
import Mstd.CfgShorter
import Mstd.CfgTruncate
import Mstd.BitpkPack
import Mstd.FpgaLoad
import Mstd.Sd1306
import Mstd.Sd1306Progress
import Mstd.TftpTicks
import Mstd.TftpWrap
import Mstd.DeviceLife
import Mstd.SystemRoundTrip
import Mstd.TftpOled
import Mstd.CfgJoin
import Mstd.CfgMain
import Mstd.SystemUpdate
import Mstd.TftpTraffic
import Mstd.TftpService
import Mstd.TftpFirmware
import Mstd.DeviceWear
import Mstd.WifiEvents
