import EventHarbor.Properties.Ledger
import EventHarbor.Properties.Chains
import EventHarbor.Properties.Replay
import EventHarbor.Properties.Evidence
import EventHarbor.Properties.Retention
import EventHarbor.Properties.Queue
import EventHarbor.Properties.Budget
import EventHarbor.Properties.Success
import EventHarbor.Properties.Leases
import EventHarbor.Properties.Ingestion
import EventHarbor.Properties.Payload
import EventHarbor.Properties.Receiver
import EventHarbor.Properties.DeadLetters
import EventHarbor.Properties.Overview
import EventHarbor.Properties.Claims
import EventHarbor.Properties.Pagination
import EventHarbor.Properties.AcceptedCursors
import EventHarbor.Properties.CanonicalForm
import EventHarbor.Properties.Encoding
import EventHarbor.Properties.ReceiverRuns
import EventHarbor.Properties.Facade
import EventHarbor.Properties.Outcomes
import EventHarbor.Properties.Batching
import EventHarbor.Properties.SeededFailures
import EventHarbor.Properties.Migrations
import EventHarbor.Properties.Signatures
import EventHarbor.Properties.RetrySchedule
import EventHarbor.Properties.Tour
import EventHarbor.Properties.Consistency
import EventHarbor.Properties.Deadlock
import EventHarbor.Properties.WireBody
