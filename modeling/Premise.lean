import Premise.Backup.Proofs.DigestProofs
import Premise.Backup.Proofs.RestoreProofs
import Premise.Backup.Proofs.RoundTripProofs
import Premise.ContextEngine.Proofs.ChunkProofs
import Premise.ContextEngine.Proofs.ParentSkipProofs
import Premise.DurableMirror.Proofs.DeadlockProofs
import Premise.DurableMirror.Proofs.DurabilityProofs
import Premise.Evolution.Proofs.RichGuardSafetyProofs
import Premise.FrontierEngine.Proofs.AtomicProofs
import Premise.FrontierEngine.Proofs.FailClosedProofs
import Premise.FrontierEngine.Proofs.RunProofs
import Premise.GuardedTools.Proofs.IdentityProofs
import Premise.IndexHybrid.Proofs.CallsProofs
import Premise.IndexHybrid.Proofs.SearchProofs
import Premise.Lease.Proofs.ManagerProofs
import Premise.Next.Proofs.PredicatesProofs
import Premise.Next.Proofs.SubsumptionProofs
import Premise.Postgres.Proofs.EventLogProofs
import Premise.Postgres.Proofs.HttpIdempotencyProofs
import Premise.Postgres.Proofs.SignatureReplayProofs
import Premise.Postgres.Proofs.ValidationFlightProofs
import Premise.Postgres.Proofs.ValidationLeaseProofs
import Premise.Protocol.Proofs.CanonicalEnvelopeProofs
import Premise.Reference.Proofs.GraphCallProofs
import Premise.Reference.Proofs.ReportProofs
import Premise.RuntimeCore.Proofs.CheckpointProofs
import Premise.RuntimeCore.Proofs.FileJournalProofs
import Premise.RuntimeCore.Proofs.NegativePremiseProofs
import Premise.RuntimeCore.Proofs.PagingProofs
import Premise.RuntimeCore.Proofs.PremiseGuardProofs
import Premise.RuntimeCore.Proofs.DerivedProofs
import Premise.Security.Proofs.AuditSinkProofs
import Premise.Security.Proofs.KeyRingProofs
import Premise.Security.Proofs.SanitizerProofs
import Premise.Security.Proofs.WebhookVerifierProofs
import Premise.SingleFlight.Proofs.FenceProofs
import Premise.Vectors.Proofs.ScopesProofs
import Premise.Webhook.Proofs.ConnectorProofs
import Premise.RuntimeCore.Proofs.SignalsProofs
