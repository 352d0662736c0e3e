import DelayBasedForwarding.Library.Runs
import DelayBasedForwarding.Library.BackInsertion
import DelayBasedForwarding.Packet
import DelayBasedForwarding.Library.Rounding
import DelayBasedForwarding.SimTimeArithmetic
import DelayBasedForwarding.Computer
import DelayBasedForwarding.RoundedComputer
import DelayBasedForwarding.PathGuarantee
import DelayBasedForwarding.PacketQueue
import DelayBasedForwarding.ReadyPrefix
import DelayBasedForwarding.Library.SortedMap
import DelayBasedForwarding.Classifier
import DelayBasedForwarding.Registry
import DelayBasedForwarding.Egress
import DelayBasedForwarding.EgressQueues
import DelayBasedForwarding.EgressSteps
import DelayBasedForwarding.TimerLemmas
import DelayBasedForwarding.StaticScheduler
import DelayBasedForwarding.DynamicScheduler
import DelayBasedForwarding.SendWindow
import DelayBasedForwarding.Library.FirstMaxima
import DelayBasedForwarding.SendPriority
import DelayBasedForwarding.Waiting
import DelayBasedForwarding.WakeUp
import DelayBasedForwarding.TimerHandles
import DelayBasedForwarding.Library.Multiples
import DelayBasedForwarding.Urgency
import DelayBasedForwarding.QueueOrder
import DelayBasedForwarding.Dropper
import DelayBasedForwarding.Admission
import DelayBasedForwarding.DynamicPriority
import DelayBasedForwarding.HeaderAccounting
import DelayBasedForwarding.Library.Pools
import DelayBasedForwarding.Conservation
import DelayBasedForwarding.Eviction
import DelayBasedForwarding.Termination
import DelayBasedForwarding.HopCounts
import DelayBasedForwarding.Library.Simulations
import DelayBasedForwarding.Network
import DelayBasedForwarding.Datagram
import DelayBasedForwarding.NetworkSteps
import DelayBasedForwarding.Interfaces
import DelayBasedForwarding.Library.Delivery
import DelayBasedForwarding.Promises
import DelayBasedForwarding.Flows
import DelayBasedForwarding.DeliveryService
import DelayBasedForwarding.RouteAdmission
import DelayBasedForwarding.NetworkConservation
import DelayBasedForwarding.Attention
import DelayBasedForwarding.Drain
import DelayBasedForwarding.SendOrder
import DelayBasedForwarding.FlowHeaders
import DelayBasedForwarding.Library.Lines
import DelayBasedForwarding.FlowLines
import DelayBasedForwarding.FlowTimes
import DelayBasedForwarding.FlowOrder
import DelayBasedForwarding.Library.FifoServers
import DelayBasedForwarding.BestEffort
import DelayBasedForwarding.DynamicModules
