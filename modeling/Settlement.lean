import Settlement.Main
import Settlement.Quote.Rounds
import Settlement.Proofs.Nearest
import Settlement.Proofs.Magnitude
import Settlement.Proofs.Outcome
import Settlement.Proofs.KeyedSums
import Settlement.Proofs.Tables
import Settlement.Proofs.Amounts
import Settlement.Proofs.UncheckedValues
import Settlement.Proofs.Blanks
import Settlement.Proofs.Proportion
import Settlement.Proofs.Distribution
import Settlement.Proofs.Apportionment
import Settlement.Proofs.Losses
import Settlement.Proofs.ExactAmounts
import Settlement.Proofs.Selection
import Settlement.Proofs.ContextOutcome
import Settlement.Proofs.WriteOffSums
import Settlement.Proofs.WriteOffs
import Settlement.Proofs.Balance
import Settlement.Proofs.Scopes
import Settlement.Proofs.Payment
import Settlement.Proofs.QuoteOutcome
import Settlement.Proofs.Coverage
import Settlement.Proofs.Agreement
import Settlement.Proofs.Ranking
import Settlement.Proofs.AllocationOrder
import Settlement.Proofs.TieOrder
import Settlement.Proofs.Rearrangement
import Settlement.Proofs.RoundedShares
import Settlement.Proofs.ShareAccuracy
import Settlement.Proofs.WholeWriteOffs
import Settlement.Proofs.Reductions
import Settlement.Proofs.Prices
import Settlement.Proofs.LargerWriteOffs
import Settlement.Proofs.FullPayment
import Settlement.Proofs.SplitTab
import Settlement.Proofs.PlainQuotes
import Settlement.Proofs.Rounds
import Settlement.Proofs.Runs
import Settlement.Proofs.Remainders
import Settlement.Proofs.OnePass
import Settlement.Proofs.Lifecycle
import Settlement.Proofs.WrittenNumbers
import Settlement.Proofs.WrittenAmounts
import Settlement.Proofs.WrittenSelections
import Settlement.Proofs.SessionEntries
import Settlement.Proofs.SessionDocuments
import Settlement.Proofs.GrossAmounts
import Settlement.Proofs.Rejections
import Settlement.Proofs.SessionFaults
import Settlement.Proofs.Losses
