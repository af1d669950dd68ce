import LineCode.Anomaly
import LineCode.Json.Forms
import LineCode.Main
import LineCode.Proofs.Productions
import LineCode.Serial
import LineCode.Stream
import LineCode.Proofs.Lookup
import LineCode.Proofs.Transmission
import LineCode.Proofs.Reception
import LineCode.Proofs.StandardWords
import LineCode.Proofs.Inversion
import LineCode.Proofs.RoundTrip
import LineCode.Proofs.Weight
import LineCode.Proofs.Producers
import LineCode.Proofs.AnomalyReport
import LineCode.Proofs.SelfSynchronisation
import LineCode.Proofs.CommaSearch
import LineCode.Proofs.CommaAlignment
import LineCode.Proofs.MaskedFields
import LineCode.Proofs.EncodeRows
import LineCode.Proofs.DecodeRows
import LineCode.Proofs.LookupRefinement
import LineCode.Proofs.SelfCheck
import LineCode.Proofs.CrossCheck
import LineCode.Proofs.RunLength
import LineCode.Proofs.Ambiguity
import LineCode.Proofs.Pushes
import LineCode.Proofs.Balance
import LineCode.Proofs.SameCode
import LineCode.Proofs.InStep
import LineCode.Proofs.Convergence
import LineCode.Proofs.RowFaults
import LineCode.Proofs.Construction
import LineCode.Proofs.RowOrder
import LineCode.Proofs.PrefixLimits
import LineCode.Proofs.DetectorAnnotation
import LineCode.Proofs.Writing
import LineCode.Proofs.PlaneText
import LineCode.Proofs.ExportFaithful
import LineCode.Proofs.Accounts
import LineCode.StoredWord
import LineCode.Proofs.JsonForms
import LineCode.Proofs.JsonText
import LineCode.Proofs.StoredWords
import LineCode.Proofs.Truncation
import LineCode.Proofs.NormalText
import LineCode.Proofs.Numerals
import LineCode.Proofs.WordSpelling
import LineCode.Proofs.SymbolSpelling
import LineCode.Proofs.FieldLaws
import LineCode.Proofs.NormalForm
import LineCode.Proofs.Lines
import LineCode.Proofs.TextReading
import LineCode.Proofs.MintermReading
import LineCode.Proofs.RecordReading
import LineCode.Proofs.ReportReading
import LineCode.Proofs.Batches
import LineCode.Proofs.Framing
