import VbSharp.Main
import VbSharp.Proofs.Block.BranchForms
import VbSharp.Proofs.Block.Plain
import VbSharp.Proofs.Block.Progress
import VbSharp.Proofs.Capture
import VbSharp.Proofs.Date
import VbSharp.Proofs.DateCheck
import VbSharp.Proofs.Expr.MemberNames
import VbSharp.Proofs.Expr.NegatedPower
import VbSharp.Proofs.Expr.SignValue
import VbSharp.Proofs.Expr.StrayMarks
import VbSharp.Proofs.Foreseen
import VbSharp.Proofs.Indentation
import VbSharp.Proofs.LeadingLines
import VbSharp.Proofs.Lower.ClassMethods
import VbSharp.Proofs.Lower.LastDefinition
import VbSharp.Proofs.Lower.Returns
import VbSharp.Proofs.Page.Output
import VbSharp.Proofs.References
import VbSharp.Proofs.Token.EscapedName
import VbSharp.Proofs.Token.Lossless
import VbSharp.Proofs.Token.NameForms
import VbSharp.Proofs.Token.NumberLiteral
import VbSharp.Proofs.Token.NumeralParts
import VbSharp.Proofs.Token.NumeralSettled
import VbSharp.Proofs.Token.NumeralWhole
import VbSharp.Proofs.Token.SignNormal
