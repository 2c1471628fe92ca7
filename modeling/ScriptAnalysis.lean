import ScriptAnalysis.Builder.Multisig
import ScriptAnalysis.Builder.Payment
import ScriptAnalysis.Bytes.LittleEndian.Lemmas
import ScriptAnalysis.Payment.Stake
import ScriptAnalysis.Payment.Unspendable
import ScriptAnalysis.Script.Disassembly
import ScriptAnalysis.Script.Listing
import ScriptAnalysis.SigOps
import ScriptAnalysis.Proofs.Decode
import ScriptAnalysis.Proofs.RoundTrip
import ScriptAnalysis.Proofs.Cursor
import ScriptAnalysis.Proofs.Append
import ScriptAnalysis.Proofs.ScriptHash
import ScriptAnalysis.Proofs.SigOps
import ScriptAnalysis.Proofs.ScriptNumber
import ScriptAnalysis.Proofs.Canonical
import ScriptAnalysis.Proofs.Builder
import ScriptAnalysis.Proofs.Builder.Run
import ScriptAnalysis.Proofs.Builder.Integer
import ScriptAnalysis.Proofs.ScriptClass
import ScriptAnalysis.Proofs.Multisig
import ScriptAnalysis.Proofs.Multisig.Faults
import ScriptAnalysis.Proofs.Exclusion
import ScriptAnalysis.Proofs.HashClass
import ScriptAnalysis.Proofs.StakeClass
import ScriptAnalysis.Proofs.AnyOrder
import ScriptAnalysis.Proofs.RedeemGuard
import ScriptAnalysis.Proofs.StakeTagged
import ScriptAnalysis.Proofs.ScriptHashSignature
import ScriptAnalysis.Proofs.Cursor.Drain
import ScriptAnalysis.Proofs.Malformed
import ScriptAnalysis.Proofs.Builder.ReadBack
import ScriptAnalysis.Proofs.Shape
import ScriptAnalysis.Proofs.Overwrite
import ScriptAnalysis.Proofs.ClassCost
import ScriptAnalysis.Proofs.Pruning
import ScriptAnalysis.Proofs.SigOps.Saving
import ScriptAnalysis.Proofs.SigOps.Append
import ScriptAnalysis.Proofs.PushFault
import ScriptAnalysis.Proofs.Canonical.Smallest
import ScriptAnalysis.Proofs.Removal
import ScriptAnalysis.Proofs.SigOps.Removal
import ScriptAnalysis.Proofs.Listing
import ScriptAnalysis.Proofs.Listing.Nesting
import ScriptAnalysis.Proofs.Listing.Lossless
import ScriptAnalysis.Proofs.Multisig.Window
import ScriptAnalysis.Proofs.Multisig.Agreement
import ScriptAnalysis.Proofs.Listing.Indentation
import ScriptAnalysis.Proofs.InstructionText
import ScriptAnalysis.Proofs.Disassembly
