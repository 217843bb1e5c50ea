import ComSA.Ac.ClockSteps
import ComSA.Ac.HaModes
import ComSA.Ac.PollDispatch
import ComSA.ComReencryptor.KeyChange
import ComSA.Log.ConfigFile
import ComSA.Motransaction.AttributeContainers
import ComSA.Motransaction.ClassName
import ComSA.Motransaction.ComMocSearch
import ComSA.Motransaction.DeletedAntichain
import ComSA.Motransaction.HandleRuns
import ComSA.Motransaction.KeyRepositories
import ComSA.Motransaction.LazyPopulation
import ComSA.Motransaction.Notified
import ComSA.Motransaction.OwnerRecord
import ComSA.Motransaction.OwnershipRuns
import ComSA.Motransaction.ParameterGrammar
import ComSA.Motransaction.RemoteAction
import ComSA.Motransaction.SecretsFile
import ComSA.Motransaction.ValueRoundTrip
import ComSA.Motransaction.WrittenOnce
import ComSA.Ntf.AlarmNotify
import ComSA.Ntf.CmAccounting
import ComSA.Ntf.CmEventProducer
import ComSA.Ntf.CmOverflow
import ComSA.Ntf.DiscardedAlarms
import ComSA.Ntf.ReaderErrors
import ComSA.Ntf.ValueList
import ComSA.OIproxy.Dispatch
import ComSA.OIproxy.ModifiedValues
import ComSA.OIproxy.Routing
import ComSA.OIproxy.RuntimeUpdate
import ComSA.OIproxy.StructMembers
import ComSA.PmtSa.CounterResults
import ComSA.PmtSa.GpRuns
import ComSA.PmtSa.MessageStream
import ComSA.PmtSa.RequestIds
import ComSA.PmtSa.ResultTree
import ComSA.PmtSa.Subscription
import ComSA.PmtSa.TypeDescriptions
import ComSA.Rlist.HalfDone
import ComSA.Rlist.Iteration
import ComSA.Rlist.ListCreate
import ComSA.Rlist.RoundTrip
