import TableShell.Main
import TableShell.Proofs.Retrieval
import TableShell.Proofs.Effects
import TableShell.Proofs.Channels
import TableShell.Proofs.History
import TableShell.Proofs.Recognition
import TableShell.Proofs.EnteredRows
import TableShell.Proofs.Usability
import TableShell.Proofs.Encoding
import TableShell.Proofs.Dialogue
import TableShell.Proofs.Messages
import TableShell.Proofs.InsertionGrammar
import TableShell.Proofs.Isolation
import TableShell.Proofs.AppendOnly
import TableShell.Proofs.Replay
import TableShell.Proofs.Excerpts
import TableShell.Proofs.Framing
import TableShell.Proofs.InsertionPatterns
import TableShell.Proofs.NumericRetrieval
import TableShell.Proofs.FieldForms
import TableShell.Proofs.Saturation
import TableShell.Proofs.DefinitionGrammar
import TableShell.Proofs.InsertionDispatch
import TableShell.Proofs.RepeatedPhrases
import TableShell.Proofs.Reconstruction
import TableShell.Proofs.PrintedRows
import TableShell.Proofs.Respelling
import TableShell.Proofs.Rearrangement
