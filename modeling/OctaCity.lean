import OctaCity.Orchestrator.Confluence
import OctaCity.Runner.Confinement
import OctaCity.Runner.Transparency
import OctaCity.Trigger.Occurrences
import OctaCity.Factory.Flow.Restored
import OctaCity.Factory.Flow.Replay
import OctaCity.Factory.Flow.ExpandedNodes
import OctaCity.Factory.Flow.Nesting
import OctaCity.Factory.Flow.Authority
import OctaCity.Store.CancelSuccess
import OctaCity.Store.Deadlines
import OctaCity.Store.Requeue
import OctaCity.Store.ClaimLimits
import OctaCity.Store.Idempotence
import OctaCity.Cache.Quota
import OctaCity.Cache.Servable
import OctaCity.Retention.FactoryCleanup
import OctaCity.Retention.HeldResults
import OctaCity.Source.ProjectionOrder
import OctaCity.Source.Fences
import OctaCity.Source.PollingGuarantees
import OctaCity.Source.PollingSchedules
import OctaCity.Placement.Composition
import OctaCity.Factory.PermissionClosure
import OctaCity.Factory.Flow.Mapping
import OctaCity.Pipeline.DagBuild
import OctaCity.Factory.Flow.Predicate
import OctaCity.Factory.GraphOrder
import OctaCity.Factory.Review.Interchange
import OctaCity.Agent.GrantProjection
import OctaCity.Runner.RedactedTexts
import OctaCity.ChangeSet.Links
import OctaCity.Output.Unpacked
import OctaCity.Store.RetryGraph
import OctaCity.LogArchive.Agreement
