import Qcacld.Txrx.TxFrame
import Qcacld.Txrx.RxReorderTimeout
import Qcacld.Htc.HtcCredit
import Qcacld.Htc.HtcQueue
import Qcacld.Htc.HtcHeader
import Qcacld.Dfs.DfsTimestamp
import Qcacld.Lim.LimPreAuth
import Qcacld.Hif.CopyEngine
import Qcacld.Lim.LimIbssPeerMgmt
import Qcacld.Dfs.DfsInit
import Qcacld.Dfs.DfsNol
import Qcacld.Wmi.WmiTlvCheck
import Qcacld.Vos.VosTimer
import Qcacld.Lim.LimNoShort
import Qcacld.Sap.SapChSelect
import Qcacld.Svc.WlanLoggingSockSvc
import Qcacld.Sap.SapDfsNol
import Qcacld.Txrx.TxWrr
import Qcacld.Sap.SapAcl
import Qcacld.Utils.PktlogRead
import Qcacld.Tlshim.TlShimMgmt
import Qcacld.Lim.LimSpecMgmt
import Qcacld.Wmi.WmiUnified
import Qcacld.Sap.SapCacRight
import Qcacld.Txrx.TxLlFifo
import Qcacld.Txrx.TcpDelAck
import Qcacld.Txrx.TxQueueLogRight
import Qcacld.Txrx.RxPnInd
import Qcacld.Txrx.RxDefragMic
import Qcacld.Txrx.RxDefragOwn
import Qcacld.Txrx.PeerLocalId
import Qcacld.Txrx.TxPeerBalPause
import Qcacld.Htt.HttRxInOrder
import Qcacld.Htt.HttTxDesc
import Qcacld.Htt.HttTxSched
import Qcacld.Htt.HttTxCompl
import Qcacld.Htc.HtcRxFrame
import Qcacld.Htc.HtcOutstanding
import Qcacld.Htc.HtcBundle
import Qcacld.Htt.HttRxHashMap
import Qcacld.Lim.LimSvcInt
import Qcacld.Lim.LimPeerIdx
import Qcacld.Cfg.CfgTxPower
import Qcacld.Lim.LimDeferredMsgQ
import Qcacld.Lim.LimRsnMatch
import Qcacld.Lim.LimSharedKey
import Qcacld.Cfg.CfgProcMsg
import Qcacld.Sch.SchBeaconGen
import Qcacld.Htt.HttRxRestitch
import Qcacld.Vos.VosTrace
import Qcacld.Vos.VosList
import Qcacld.Dfs.DfsPhyerrTlv
import Qcacld.Lim.LimStaProtection
import Qcacld.Dfs.DfsBin5
