import Nova.Table
import Nova.Json
import Nova.Text
import Nova.Binary64
import Nova.IsoTime
import Nova.Runs
import Nova.ReadCommitted
import Nova.DataViews
import Nova.ValidateSelect
import Nova.Capabilities
import Nova.Limits
import Nova.RunSelectQuery
import Nova.XmlExport
import Nova.AgentRun
import Nova.CanonicalText
import Nova.EntitlementSnapshot
import Nova.RbacRegistry
import Nova.RbacTables
import Nova.RbacAdmin
import Nova.RbacTransactions
import Nova.SetReconciliation
import Nova.KeycloakRoles
import Nova.RegistryRefresh
import Nova.ViewBindings
import Nova.AgentRegistry
import Nova.GatewayPolicy
import Nova.ToolGateway
import Nova.CapabilityReplay
import Nova.SnapshotPlanes
import Nova.SelfDelimiting
import Nova.SnapshotTamper
import Nova.RegistryPayload
import Nova.McpSessions
import Nova.RunCreation
import Nova.Payloads
import Nova.Ledger
import Nova.AgentClient
import Nova.Worker
import Nova.WorkerMoves
import Nova.WorkerProgress
import Nova.RunSystem
import Nova.AfterTheEnd
import Nova.Cancellation
import Nova.TerminalEvents
import Nova.AssistantMessages
import Nova.Resume
import Nova.AnswerDelivery
import Nova.Expiry
import Nova.MenuClosure
import Nova.Routing
import Nova.ToolNames
import Nova.Harness
import Nova.HarnessGates
import Nova.HarnessBounds
import Nova.RunGraphBounds
import Nova.DumpsText
import Nova.NoProgress
import Nova.CursorPages
import Nova.EventOrder
import Nova.SubEvents
import Nova.SubEventLedger
import Nova.LedgerRows
import Nova.EventStream
import Nova.ClientEvents
import Nova.Webhooks
import Nova.WebhookLifecycle
import Nova.WebhookConfidentiality
import Nova.BatchOrder
import Nova.Decimals
import Nova.Sales
import Nova.DecimalCodec
import Nova.ReceiptTotals
import Nova.SaleReceipts
import Nova.AgentState
import Nova.CurrentUser
import Nova.ResultBudget
import Nova.Truncation
import Nova.Lexing
import Nova.ClampedSelect
import Nova.CteScope
import Nova.PreCheck
import Nova.SopVersions
import Nova.Dicts
import Nova.Redaction
import Nova.AgentTask
import Nova.DenialReasons
import Nova.FrameRoundTrip
import Nova.TraceModel
import Nova.TraceGrouping
import Nova.HeaderCounts
import Nova.FixedWindows
import Nova.RequestRate
import Nova.AccountEffects
import Nova.AccountLinks
import Nova.OffsetPages
import Nova.ReadOnlyPool
import Nova.SalesList
import Nova.RegistryClient
import Nova.IsolatedParties
import Nova.MessageReferences
import Nova.PolicyEnforcement
import Nova.EventReads
import Nova.ServiceTokens
import Nova.AgentLiveness
import Nova.TimelyAgents
