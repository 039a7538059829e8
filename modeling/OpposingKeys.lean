import OpposingKeys.Encoding
import OpposingKeys.Engine
import OpposingKeys.FileSystem
import OpposingKeys.FlagsJson
import OpposingKeys.Host
import OpposingKeys.Main
import OpposingKeys.Proofs.DoubleHold
import OpposingKeys.Proofs.Independence
import OpposingKeys.Proofs.LastInput
import OpposingKeys.Proofs.PairSet
import OpposingKeys.Proofs.RecoveryGain
import OpposingKeys.Proofs.Release
import OpposingKeys.Proofs.Suppression
import OpposingKeys.Replay
import OpposingKeys.Session
import OpposingKeys.SettingsStore
import OpposingKeys.Snapshot
import OpposingKeys.TableFile
import OpposingKeys.TableJson
import OpposingKeys.TablePrinter
import OpposingKeys.Proofs.Comebacks
import OpposingKeys.Proofs.CleanSlate
import OpposingKeys.Proofs.Tracking
import OpposingKeys.Proofs.Bystanders
import OpposingKeys.Proofs.PlainCancellation
import OpposingKeys.Proofs.WriteThrough
import OpposingKeys.Proofs.FileWrites
import OpposingKeys.Proofs.SettingsSave
import OpposingKeys.Proofs.TableGrammar
import OpposingKeys.Proofs.JoinedTables
import OpposingKeys.Proofs.ShownKeys
import OpposingKeys.Proofs.WrittenTables
import OpposingKeys.Proofs.Utf16RoundTrip
import OpposingKeys.Proofs.TableEncodings
import OpposingKeys.Proofs.AsciiBytes
import OpposingKeys.Proofs.Comments
import OpposingKeys.Proofs.JsonRoundTrip
import OpposingKeys.Proofs.ControlKeys
import OpposingKeys.Proofs.Replays
import OpposingKeys.Proofs.Presses
import OpposingKeys.Proofs.SlotAccess
import OpposingKeys.Proofs.BoundedSet
import OpposingKeys.Proofs.KeyGrammar
import OpposingKeys.Proofs.DivergingText
import OpposingKeys.Proofs.AnnouncedEncoding
import OpposingKeys.Proofs.LastWriter
import OpposingKeys.Proofs.TableIteration
import OpposingKeys.Proofs.TableLayout
import OpposingKeys.Proofs.ForeignMembers
