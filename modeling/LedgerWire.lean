import LedgerWire.CommandLine
import LedgerWire.Main
import LedgerWire.Registry.FieldName
import LedgerWire.Session.Descent
import LedgerWire.Session.Workspace
import LedgerWire.Proofs.Base58
import LedgerWire.Proofs.Outcome
import LedgerWire.Proofs.Address
import LedgerWire.Proofs.Loading
import LedgerWire.Proofs.Expansion
import LedgerWire.Proofs.Composition
import LedgerWire.Proofs.Lawful
import LedgerWire.Proofs.SigningScope
import LedgerWire.Proofs.Levels
import LedgerWire.Proofs.WireOrder
import LedgerWire.Proofs.Repacking
import LedgerWire.Proofs.Transparency
import LedgerWire.Proofs.LeafReading
import LedgerWire.Proofs.DecimalGrammar
import LedgerWire.Proofs.DecimalReading
import LedgerWire.Proofs.Decimal
import LedgerWire.Proofs.RenderedDecimals
import LedgerWire.Proofs.DecimalValues
import LedgerWire.Proofs.Scaling
import LedgerWire.Proofs.LeafRendering
import LedgerWire.Proofs.LeafForms
import LedgerWire.Proofs.AssetLayouts
import LedgerWire.Proofs.IssuedAmounts
import LedgerWire.Proofs.Drops
import LedgerWire.Proofs.AmountRendering
import LedgerWire.Proofs.Numbers
import LedgerWire.Proofs.FieldRendering
import LedgerWire.Proofs.Texts
import LedgerWire.Proofs.ReadBack
import LedgerWire.Proofs.NormalForm
import LedgerWire.Proofs.RoundTrip
import LedgerWire.Proofs.Decoded
import LedgerWire.Proofs.Projection
import LedgerWire.Proofs.LeafReturns
import LedgerWire.Proofs.Framing
import LedgerWire.Proofs.Respelling
import LedgerWire.Proofs.MemberOrder
import LedgerWire.Proofs.Canonical
import LedgerWire.Proofs.Consistency
import LedgerWire.Proofs.Consumption
import LedgerWire.Proofs.Occurrences
import LedgerWire.Proofs.Repeats
import LedgerWire.Proofs.Tokens
import LedgerWire.Proofs.TaggedAddresses
import LedgerWire.Proofs.Signers
import LedgerWire.Proofs.PassThrough
import LedgerWire.Proofs.Delimited
import LedgerWire.Proofs.Walks
import LedgerWire.Proofs.DeclaredLengths
import LedgerWire.Proofs.ContainerRendering
import LedgerWire.Proofs.Truncation
import LedgerWire.Proofs.PartialWrites
import LedgerWire.Proofs.NamedCodes
import LedgerWire.Proofs.AddressExpansion
import LedgerWire.Proofs.PathGrammar
import LedgerWire.Proofs.FieldNames
import LedgerWire.Proofs.Payloads
import LedgerWire.Proofs.Progress
import LedgerWire.Proofs.Underruns
import LedgerWire.Proofs.Sessions
