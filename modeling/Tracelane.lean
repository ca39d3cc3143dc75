import Tracelane.Audit.Inclusion
import Tracelane.Audit.Tamper
import Tracelane.Audit.Tenants
import Tracelane.Gateway.Batches
import Tracelane.Gateway.BreakerProbes
import Tracelane.Gateway.BreakerRaces
import Tracelane.Gateway.BudgetCheck
import Tracelane.Gateway.BudgetWindows
import Tracelane.Gateway.CalendarSpec
import Tracelane.Gateway.EndUserCap
import Tracelane.Gateway.EntitlementsSpec
import Tracelane.Gateway.ExportStream
import Tracelane.Gateway.HeadWriter
import Tracelane.Gateway.Honest
import Tracelane.Gateway.IntakeSpec
import Tracelane.Gateway.KeyBody
import Tracelane.Gateway.LimitsSpec
import Tracelane.Gateway.MetersSpec
import Tracelane.Gateway.PreAuthSpec
import Tracelane.Gateway.Reconcile
import Tracelane.Gateway.Reservations
import Tracelane.Gateway.TraceShare
import Tracelane.Guardrail.HookRedact
import Tracelane.Guardrail.LenientDecode
import Tracelane.Guardrail.Lossless
import Tracelane.Guardrail.OneWay
import Tracelane.Guardrail.PreCheck
import Tracelane.Guardrail.Trifecta
import Tracelane.Chat.Answers
import Tracelane.Chat.Hops
import Tracelane.Billing.AutoAge
import Tracelane.Cache.Separation
import Tracelane.Ingest.Sampling
import Tracelane.Native.Streams
import Tracelane.Policy.DenyNames
import Tracelane.Prompts.Rollback
import Tracelane.Routing.Splits
