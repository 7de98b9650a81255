import Mensura.Text
import Mensura.Scalar
import Mensura.Decimal
import Mensura.Dimension
import Mensura.Signature
import Mensura.Measurement
import Mensura.Unit
import Mensura.Quantity
import Mensura.Data
import Mensura.Registry.Outcome
import Mensura.Registry.Basic
import Mensura.Toml.Reader
import Mensura.Toml.Document
import Mensura.Catalog
import Mensura.UnitLiteral
import Mensura.Proofs.Text
import Mensura.Proofs.Dimension.Arithmetic
import Mensura.Proofs.Numeric.Exact
import Mensura.Proofs.Registry.Resolution
import Mensura.Proofs.Decimal.Numeral
import Mensura.Proofs.Signature.Words
import Mensura.Proofs.Signature.Term
import Mensura.Proofs.Registry.Extension
import Mensura.Proofs.Signature.Joining
import Mensura.Proofs.Dimension.Text
import Mensura.Proofs.Numeric.Width
import Mensura.Proofs.Numeric.Rounding
import Mensura.Proofs.Signature.Faults
import Mensura.Proofs.Signature.Grammar
import Mensura.Proofs.Signature.Denotation
import Mensura.Proofs.Measurement.Split
import Mensura.Proofs.Measurement.Number
import Mensura.Proofs.Registry.Soundness
import Mensura.Proofs.Registry.Names
import Mensura.Proofs.Registry.Refusal
import Mensura.Proofs.Registry.Joined
import Mensura.Proofs.Registry.Spacing
import Mensura.Proofs.Catalog.Transaction
import Mensura.Proofs.Catalog.Order
import Mensura.Proofs.Registry.Definition
import Mensura.Proofs.Catalog.Announced
import Mensura.Proofs.Data.Components
import Mensura.Proofs.Data.Tagged
import Mensura.Proofs.Quantity.Axes
import Mensura.Proofs.Quantity.Narrowing
import Mensura.Proofs.UnitLiteral.Expansion
import Mensura.Proofs.UnitLiteral.Stability
