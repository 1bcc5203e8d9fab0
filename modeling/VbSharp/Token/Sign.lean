import VbSharp.Token.Numeral

/-!
# Runs of signs, and comparison operators of two marks

A run of plus and minus signs counts as one sign. Where a sign stands before an operand it is folded
into a number that follows, and a plus sign is dropped. A number whose signs cancel out is wrapped in
a call of `CDbl`: a signed literal compares as a number with a string, an expression does not.

Two neighbouring marks such as `>` and `=` are one comparison operator.
-/
namespace VbSharp.Sign

/-- A run of signs: the line of the first one, how many there are and whether they negate. -/
structure Run where
  line : Nat
  count : Nat
  negative : Bool
  deriving Repr, DecidableEq

def isNegative (t : Token) : Bool :=
  t.text == "-"

def Run.ofSign (t : Token) : Run :=
  ⟨t.line, 1, isNegative t⟩

def Run.add (r : Run) (t : Token) : Run :=
  { r with count := r.count + 1, negative := r.negative != isNegative t }

def Run.applyTo (r : Run) (t : Token) : List Token :=
  let signed := t.text.toList.head? == some '-'
  let magnitude := String.ofList (t.text.toList.dropWhile (· == '-'))
  let negative := r.negative != signed
  let count := if signed then r.count + 1 else r.count
  if negative then [⟨.number, "-" ++ magnitude, t.line⟩]
  else if 1 < count then
    [.ofWord "CDbl" t.line, .ofWord "(" t.line, ⟨.number, magnitude, t.line⟩, .ofWord ")" t.line]
  else [⟨.number, magnitude, t.line⟩]

def Run.infixToken (r : Run) : Token :=
  ⟨.arithmetic, if r.negative then "-" else "+", r.line⟩

def Run.prefixTokens (r : Run) : List Token :=
  if r.negative then [⟨.arithmetic, "-", r.line⟩] else []

/-- Whether an operand has to follow the tokens, given what was the case before them. -/
def leadsOperand (before : Bool) (tokens : List Token) : Bool :=
  (tokens.getLast?.map Token.mayPrecedeSign).getD before

/-- Combines runs of signs. The flag says whether an operand has to follow what is already written,
and `run` holds the signs read since. -/
def combineRuns (leading : Bool) (run : Option Run) : List Token → List Token
  | [] =>
    match run with
    | none => []
    | some r => if leading then r.prefixTokens else [r.infixToken]
  | t :: rest =>
    match run with
    | none =>
      if Numeral.isSign t then combineRuns leading (some (.ofSign t)) rest
      else t :: combineRuns t.mayPrecedeSign none rest
    | some r =>
      if Numeral.isSign t then combineRuns leading (some (r.add t)) rest
      else if leading && t.kind == .number then
        let out := r.applyTo t
        out ++ combineRuns (leadsOperand leading out) none rest
      else
        let out := if leading then r.prefixTokens else [r.infixToken]
        out ++ t :: combineRuns t.mayPrecedeSign none rest

def fused? (a b : Token) : Option Token :=
  if a.kind = .comparison ∧ b.kind = .comparison then
    if a.text = "<" ∧ b.text = ">" then some ⟨.comparison, "<>", a.line⟩
    else if a.text = "<" ∧ b.text = "=" then some ⟨.comparison, "<=", a.line⟩
    else if a.text = ">" ∧ b.text = "=" then some ⟨.comparison, ">=", a.line⟩
    else none
  else none

/-- Joins the marks of comparison operators, from left to right. -/
def fuseComparisons : List Token → List Token
  | a :: b :: rest =>
    match fused? a b with
    | some fused => fused :: fuseComparisons rest
    | none => a :: fuseComparisons (b :: rest)
  | tokens => tokens

end VbSharp.Sign

namespace VbSharp

/-- The tokens with runs of signs combined and comparison operators in one piece. -/
def combineOperators (tokens : List Token) : List Token :=
  Sign.fuseComparisons (Sign.combineRuns true none tokens)

end VbSharp
