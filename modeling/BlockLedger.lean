import BlockLedger.Main
import BlockLedger.Text.Padded
import BlockLedger.Proofs.Block.Canonical
import BlockLedger.Proofs.Text.DigestForm
import BlockLedger.Proofs.Tree.Commitment
import BlockLedger.Proofs.Tree.Rounds
import BlockLedger.Proofs.Request.Content
import BlockLedger.Proofs.Request.Minimal
import BlockLedger.Proofs.Replay.Binding
import BlockLedger.Proofs.Replay.Order
import BlockLedger.Proofs.Replay.Words
import BlockLedger.Proofs.Journal.Lines
import BlockLedger.Proofs.Journal.Recovery
import BlockLedger.Proofs.Ledger.Batches
import BlockLedger.Proofs.Ledger.Interrupted
import BlockLedger.Proofs.Command.EndToEnd
import BlockLedger.Proofs.Command.Setup
