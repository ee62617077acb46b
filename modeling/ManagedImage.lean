import ManagedImage.Main
import ManagedImage.Proofs.Records
import ManagedImage.Session
import ManagedImage.Walk
import ManagedImage.Proofs.Layout
import ManagedImage.Proofs.Memory
import ManagedImage.Proofs.HeaderStages
import ManagedImage.Proofs.WellFormed
import ManagedImage.Proofs.SummaryStages
import ManagedImage.Proofs.Acceptance
import ManagedImage.Proofs.Agreement
import ManagedImage.Proofs.Truncation
import ManagedImage.Proofs.SectionNames
import ManagedImage.Proofs.StreamCalls
import ManagedImage.Proofs.StreamAgreement
import ManagedImage.Proofs.StreamSoundness
import ManagedImage.Proofs.Tolerance
import ManagedImage.Proofs.WholeImage
import ManagedImage.Proofs.Reencoding
import ManagedImage.Proofs.StubContents
import ManagedImage.Proofs.MissingBytes
import ManagedImage.Proofs.SummaryRequests
import ManagedImage.Proofs.Walks
import ManagedImage.Proofs.AssumedOffset
import ManagedImage.Proofs.Translation
import ManagedImage.Proofs.FieldEdits
import ManagedImage.Proofs.ReadLoop
import ManagedImage.Proofs.FieldReads
import ManagedImage.Proofs.LogStages
import ManagedImage.Proofs.LogOutcome
import ManagedImage.Proofs.CheckedWords
import ManagedImage.Proofs.CheckedSteps
import ManagedImage.Proofs.CheckedRead
import ManagedImage.Proofs.IntegerSequences
import ManagedImage.Proofs.FileReads
import ManagedImage.Proofs.ReportBlocks
