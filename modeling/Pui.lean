import Pui.AuthorityReportRuns
import Pui.AwgParams
import Pui.CounterBilling
import Pui.CounterRuns
import Pui.DeliveryRuns
import Pui.HotReach
import Pui.IPCap
import Pui.Jalali
import Pui.Lifetime
import Pui.MeteredStreams
import Pui.ObservationRuns
import Pui.Plans
import Pui.RadiusLedger
import Pui.RateRounds
import Pui.ResetDue
import Pui.RoutingArtifacts
import Pui.ShapingPlan
import Pui.SharedRatesRuns
import Pui.StableTags
import Pui.TermRates
import Pui.UpdateOrder
import Pui.UsageProjection
import Pui.WireGuardPool
import Pui.WireGuardRemoval
