import RsaAudit.Main
import RsaAudit.Proofs.CommandRun
import RsaAudit.Proofs.FunctionReading
import RsaAudit.Proofs.PolicyStrictness
import RsaAudit.Proofs.ProgramRenderings
import RsaAudit.Proofs.ProgramRoundTrip
import RsaAudit.Session
import RsaAudit.Proofs.PolicySettings
import RsaAudit.Proofs.Attribution
import RsaAudit.Proofs.Json.Indentation
import RsaAudit.Proofs.ReportReading
import RsaAudit.Proofs.ReportLines
import RsaAudit.Proofs.PolicyLoading
import RsaAudit.Proofs.Json.Soundness
import RsaAudit.Proofs.Document.Provenance
import RsaAudit.Proofs.ProgramProvenance
import RsaAudit.Proofs.ResolutionBudget
import RsaAudit.Proofs.Arity
import RsaAudit.Proofs.Files.NewFile
import RsaAudit.Proofs.RunAgain
import RsaAudit.Proofs.DocumentAccess
import RsaAudit.Proofs.CanonicalNames
import RsaAudit.Proofs.HashNumbers
import RsaAudit.Proofs.ResolverBuild
