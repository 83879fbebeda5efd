import HiddenSteps.Systems.Machine
import HiddenSteps.Systems.Watched
import HiddenSteps.Systems.Potential
import HiddenSteps.Systems.Changes
import HiddenSteps.Systems.Views
import HiddenSteps.Systems.ReadModifyWrite
import HiddenSteps.Systems.Packing
import HiddenSteps.Systems.Grouping
import HiddenSteps.Systems.KeyedRows
import HiddenSteps.Systems.Transaction
import HiddenSteps.Systems.LastWrite
import HiddenSteps.Systems.Retry
import HiddenSteps.Systems.CheckDigits
import HiddenSteps.Systems.Walks
import HiddenSteps.Systems.BinaryFloat
import HiddenSteps.Systems.SqlTables
import HiddenSteps.Systems.RowFormats
import HiddenSteps.Text.Utf8
import HiddenSteps.Text.Spans
import HiddenSteps.Text.Panic
import HiddenSteps.Text.Regex
import HiddenSteps.Text.RegexLaws
import HiddenSteps.Text.Language
import HiddenSteps.Text.JsonText
import HiddenSteps.Text.Lossy
import HiddenSteps.Text.Separators
import HiddenSteps.Text.CharClasses
import HiddenSteps.Text.Words
import HiddenSteps.Text.Standing
import HiddenSteps.Domain.Json
import HiddenSteps.Domain.Privacy
import HiddenSteps.Domain.Event
import HiddenSteps.Domain.Records
import HiddenSteps.Domain.Serialize
import HiddenSteps.Domain.TimeFmt
import HiddenSteps.Domain.TimeOrder
import HiddenSteps.Observation.ActiveWindow
import HiddenSteps.Observation.Clipboard
import HiddenSteps.Redaction.Entropy
import HiddenSteps.Redaction.Detectors
import HiddenSteps.Redaction.DetectorLaws
import HiddenSteps.Redaction.Engine
import HiddenSteps.Redaction.Coverage
import HiddenSteps.Redaction.Rescan
import HiddenSteps.Redaction.CardWindows
import HiddenSteps.Pipeline.Process
import HiddenSteps.Pipeline.Totality
import HiddenSteps.Redaction.CardNumbers
import HiddenSteps.Redaction.PlainCards
import HiddenSteps.Redaction.QuotedSecrets
import HiddenSteps.Redaction.Luhn
import HiddenSteps.Redaction.WindowSearch
import HiddenSteps.Pipeline.Scanned
import HiddenSteps.PrivacyEngine.Gate
import HiddenSteps.PrivacyEngine.GatedProvider
import HiddenSteps.Patterns.Detector
import HiddenSteps.Patterns.DetectorLaws
import HiddenSteps.Patterns.Growth
import HiddenSteps.Patterns.Exact
import HiddenSteps.Patterns.Incremental
import HiddenSteps.Recommendations.Prompt
import HiddenSteps.Recommendations.Extraction
import HiddenSteps.Recommendations.Validate
import HiddenSteps.Recommendations.NumberWords
import HiddenSteps.Recommendations.Pairs
import HiddenSteps.Recommendations.Mentions
import HiddenSteps.Recommendations.Acceptance
import HiddenSteps.Recommendations.Counts
import HiddenSteps.Recommendations.Passages
import HiddenSteps.Recommendations.Phrases
import HiddenSteps.Recommendations.Narrative
import HiddenSteps.Recommendations.Synthesizer
import HiddenSteps.Recommendations.Synthesis
import HiddenSteps.Patterns.Verbatim
import HiddenSteps.Patterns.Elapsed
import HiddenSteps.Patterns.ActionKeys
import HiddenSteps.Patterns.WorkflowGraph
import HiddenSteps.Plugins.Manifest
import HiddenSteps.Plugins.Host
import HiddenSteps.Plugins.Confinement
import HiddenSteps.EventStore.Store
import HiddenSteps.EventStore.StoreLaws
import HiddenSteps.EventStore.Recent
import HiddenSteps.EventStore.Export
import HiddenSteps.EventStore.ActiveProvider
import HiddenSteps.EventStore.Schema
import HiddenSteps.EventStore.DeleteAll
import HiddenSteps.EventStore.Opening
import HiddenSteps.EventStore.Linking
import HiddenSteps.EventStore.Labels
import HiddenSteps.EventStore.Columns
import HiddenSteps.EventStore.RawStore
import HiddenSteps.EventStore.Contents
import HiddenSteps.EventStore.RoundTrip
import HiddenSteps.EventStore.Decoded
import HiddenSteps.Desktop.State
import HiddenSteps.Desktop.Commands
import HiddenSteps.Desktop.CommandSteps
import HiddenSteps.Desktop.ObservationLoop
import HiddenSteps.Desktop.RecommendationLoop
import HiddenSteps.Desktop.GatedSynthesis
import HiddenSteps.Desktop.LoopSteps
import HiddenSteps.Desktop.App
import HiddenSteps.Desktop.TableSteps
import HiddenSteps.Desktop.Observing
import HiddenSteps.Desktop.SourceLevels
import HiddenSteps.Desktop.PrivacyRow
import HiddenSteps.Desktop.PrivacyCommands
import HiddenSteps.Desktop.PrivacySteps
import HiddenSteps.Desktop.RowRule
import HiddenSteps.Desktop.PolicyFloor
import HiddenSteps.Desktop.LevelOrigin
import HiddenSteps.Desktop.Onboarding
import HiddenSteps.Desktop.CloudConsent
import HiddenSteps.Desktop.KeyVault
import HiddenSteps.Desktop.Provenance
import HiddenSteps.Desktop.CloudDispatch
import HiddenSteps.Desktop.OffDevice
import HiddenSteps.Desktop.Numbering
import HiddenSteps.Desktop.Deletion
import HiddenSteps.Desktop.Uniqueness
import HiddenSteps.Desktop.SweepEnds
import HiddenSteps.Desktop.ProviderAllowlist
import HiddenSteps.Desktop.Keeping
import HiddenSteps.Desktop.Retention
import HiddenSteps.Desktop.Tracing
import HiddenSteps.Desktop.Rolling
import HiddenSteps.Desktop.Suggestions
import HiddenSteps.Desktop.Revocation
import HiddenSteps.Desktop.KeySecrecy
import HiddenSteps.Desktop.KeyBinding
import HiddenSteps.Desktop.Progress
import HiddenSteps.Desktop.Intake
import HiddenSteps.Desktop.AuditReplay
import HiddenSteps.EventStore.References
import HiddenSteps.Desktop.Explanations
import HiddenSteps.Desktop.Exposure
import HiddenSteps.Desktop.Resweep
import HiddenSteps.Desktop.Forgetting
import HiddenSteps.Desktop.AuditTrail
import HiddenSteps.Systems.Composition
import HiddenSteps.Interface.OnboardingWizard
import HiddenSteps.Interface.Installation
import HiddenSteps.Interface.Consent
import HiddenSteps.Interface.Validation
