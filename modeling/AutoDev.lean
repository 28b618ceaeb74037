import AutoDev.Flows.PlainFlows
import AutoDev.Flows.Final
import AutoDev.Flows.Output
import AutoDev.Flows.HumanRecovery
import AutoDev.Flows.FanOut
import AutoDev.Flows.Termination
import AutoDev.Flows.Accounts
import AutoDev.Quotas.Leases
import AutoDev.Quotas.Usage
import AutoDev.Artifacts.Persist
import AutoDev.Flows.EventLog
import AutoDev.Flows.Decisions
import AutoDev.Execution.Approval
import AutoDev.Execution.DenyAndStop
import AutoDev.Execution.Hybrid
import AutoDev.Auth.Credentials
import AutoDev.Auth.Logins
import AutoDev.Plugins.Host
import AutoDev.Persistence.Runs
import AutoDev.Plans.Tenants
import AutoDev.Execution.Tiers
import AutoDev.Auth.Oidc
import AutoDev.Auth.Refresh
import AutoDev.Execution.ResolvedOnce
import AutoDev.Execution.Containment
import AutoDev.Flows.Visible
import AutoDev.Secrets.Redaction
import AutoDev.Reasoning.Boundaries
import AutoDev.Llm.Streams
import AutoDev.Agents.Denylist
import AutoDev.Environments.Manager
import AutoDev.Events.Projection
import AutoDev.Events.Bus
import AutoDev.Coordination.Locks
import AutoDev.Plans.Resumes
import AutoDev.Evals.Percentile
import AutoDev.Skills.Invoker
