import PhytiumSdk.Lib.System
import PhytiumSdk.Lib.Mask
import PhytiumSdk.Lib.LapRing
import PhytiumSdk.Lib.CircularWindow
import PhytiumSdk.Xmac.Descriptor
import PhytiumSdk.Xmac.Transmit
import PhytiumSdk.Xmac.TxWindow
import PhytiumSdk.Xmac.TxInvariant
import PhytiumSdk.Xmac.TxRing
import PhytiumSdk.Xmac.TxHardware
import PhytiumSdk.Xmac.Receive
import PhytiumSdk.Xmac.RxInvariant
import PhytiumSdk.Xmac.Control
import PhytiumSdk.Xmac.FilterCoherence
import PhytiumSdk.Xmac.LinkCoherence
import PhytiumSdk.Xmac.Quiescence
import PhytiumSdk.Sdif.Command
import PhytiumSdk.Sdif.Request
import PhytiumSdk.Sdif.RequestSteps
import PhytiumSdk.Sdif.ErrorReport
import PhytiumSdk.Sdif.TimeoutSteps
import PhytiumSdk.Sdif.AtMostOnce
import PhytiumSdk.Sdif.Wakeup
import PhytiumSdk.Sdif.FaultFree
import PhytiumSdk.Sdif.ServiceRuns
import PhytiumSdk.Lib.Cached
import PhytiumSdk.Sdif.BusSettings
import PhytiumSdk.Sdif.HotPlug
import PhytiumSdk.Xmac.MsgFilter
import PhytiumSdk.Sdif.IosMessage
import PhytiumSdk.Sdif.StartFailure
import PhytiumSdk.Sdif.Unissued
import PhytiumSdk.Xmac.Shadow
import PhytiumSdk.Xmac.Doorbell
import PhytiumSdk.Xmac.TxConservation
import PhytiumSdk.Xmac.RxInterrupt
import PhytiumSdk.Lib.Record
import PhytiumSdk.Sdif.CommandWords
import PhytiumSdk.Sdif.CommandTrace
import PhytiumSdk.Sdif.BlockCount
import PhytiumSdk.Sdif.TransferEnd
import PhytiumSdk.Sdif.CardInit
import PhytiumSdk.Sdif.BounceSteps
import PhytiumSdk.Sdif.BounceBuffer
import PhytiumSdk.Xmac.LinkSpeed
import PhytiumSdk.Lib.Chain
import PhytiumSdk.Sdif.DescRing
import PhytiumSdk.Sdif.ClientInput
import PhytiumSdk.Lib.Ledger
import PhytiumSdk.Xmac.Attach
import PhytiumSdk.Sdif.Lifecycle
import PhytiumSdk.Lib.PointerList
import PhytiumSdk.Xmac.TxSegments
import PhytiumSdk.Lib.Cut
import PhytiumSdk.Sdif.DescBudget
import PhytiumSdk.Xmac.HashFilter
import PhytiumSdk.Xmac.MacAddress
import PhytiumSdk.Xmac.RecvList
import PhytiumSdk.Lib.Munch
import PhytiumSdk.Lib.Numeral
import PhytiumSdk.Port.Conversions
import PhytiumSdk.Port.Printf
import PhytiumSdk.Lib.Inbox
import PhytiumSdk.Lib.Potential
import PhytiumSdk.Lib.Simulation
import PhytiumSdk.Xmac.RxDelivery
import PhytiumSdk.Xmac.TxProgress
import PhytiumSdk.Lib.Field
import PhytiumSdk.Sdif.AtLeastOnce
import PhytiumSdk.Sdif.HostLock
import PhytiumSdk.Sdif.Polls
import PhytiumSdk.Xmac.Mdio
import PhytiumSdk.Xmac.MsgControl
import PhytiumSdk.Xmac.MsgCoherence
import PhytiumSdk.Sdif.BufferSafety
