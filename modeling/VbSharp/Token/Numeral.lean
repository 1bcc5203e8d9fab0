import VbSharp.Fault
import VbSharp.Transducer

/-!
# Numerals

A numeral such as `-1.5E-3` reaches this stage as up to six tokens. A machine joins them again: what a
minus sign or a point belongs to depends on the token before it and on the one after it. Points that
are part of no numeral select members.
-/
namespace VbSharp.Numeral

/-- How much of a numeral has been read. The parts are the tokens of an unfinished numeral, in order. -/
inductive State where
  /-- No numeral is open. A sign or a point may start one if `signed`, digits always may. -/
  | idle (signed : Bool)
  | minus (sign : Token)
  | whole (parts : List Token)
  | fraction (parts : List Token)
  /-- The digits end in an exponent mark and need a signed exponent. -/
  | exponentMark (parts : List Token)
  | exponentSign (parts : List Token)
  deriving Repr, DecidableEq

def textOf (parts : List Token) : String :=
  String.ofList (parts.flatMap (·.text.toList))

def isMinus (t : Token) : Bool :=
  t.kind == .arithmetic && t.text == "-"

def isSign (t : Token) : Bool :=
  t.kind == .arithmetic && (t.text == "+" || t.text == "-")

def hasDigits (parts : List Token) : Bool :=
  parts.any (·.kind == .number)

def hasPoint (parts : List Token) : Bool :=
  parts.any fun t => t.kind == .point || (t.kind == .number && t.text.toList.contains '.')

def endsInMark (t : Token) : Bool :=
  match t.text.toList.getLast? with
  | some c => c == 'e' || c == 'E'
  | none => false

def afterDigits (parts : List Token) (digits : Token) : State :=
  if endsInMark digits then .exponentMark parts else .whole parts

def lineOf (parts : List Token) : Nat :=
  match parts with
  | [] => 0
  | first :: _ => first.line

def join (parts : List Token) : Except Fault Token :=
  let text := textOf parts
  if (Quantity.read? text).any Quantity.isFinite then .ok ⟨.number, text, lineOf parts⟩
  else .error (.inconsistent (.unreadableNumber (lineOf parts + 1) text))

def idleStep (signed : Bool) (t : Token) : List Token × State :=
  if t.kind = .number then ([], afterDigits [t] t)
  else if signed && isMinus t then ([], .minus t)
  else if signed && t.kind == .point then ([], .fraction [t])
  else ([t], .idle t.mayPrecedeSign)

/-- Gives up the numeral: its parts stand for themselves, and `t` comes after the last of them. -/
def release (parts : List Token) (t : Token) : List Token × State :=
  let (out, next) := idleStep ((parts.getLast?.map Token.mayPrecedeSign).getD true) t
  (parts ++ out, next)

/-- Ends the numeral before `t`. -/
def close (parts : List Token) (t : Token) : Except Fault (List Token × State) :=
  match join parts with
  | .ok number =>
    let (out, next) := idleStep false t
    .ok (number :: out, next)
  | .error fault => .error fault

def complete (parts : List Token) : Except Fault (List Token × State) :=
  (join parts).map fun number => ([number], .idle false)

def secondPoint (parts : List Token) (t : Token) : Fault :=
  .invalidNumber t.lineNumber (textOf parts ++ t.text)

/-- One token: the tokens that it settles and the next state. -/
def step (s : State) (t : Token) : Except Fault (List Token × State) :=
  match s with
  | .idle signed => .ok (idleStep signed t)
  | .minus sign =>
    if t.kind = .number ∧ t.text.toList.head? ≠ some '-' then .ok ([], afterDigits [sign, t] t)
    else if t.kind = .point then .ok ([], .fraction [sign, t])
    else .ok (release [sign] t)
  | .whole parts =>
    if t.kind = .point then
      if hasPoint parts then .error (secondPoint parts t) else .ok ([], .fraction (parts ++ [t]))
    else close parts t
  | .fraction parts =>
    if t.kind = .point then .error (secondPoint parts t)
    else if t.kind = .number ∧ '.' ∉ t.text.toList ∧ '-' ∉ t.text.toList then
      if endsInMark t then .ok ([], .exponentMark (parts ++ [t])) else complete (parts ++ [t])
    else if hasDigits parts then close parts t
    else .ok (release parts t)
  | .exponentMark parts =>
    if isSign t then .ok ([], .exponentSign (parts ++ [t]))
    else .error (.invalidNumber t.lineNumber (textOf parts))
  | .exponentSign parts =>
    if t.kind = .number ∧ t.text.toList.all Char.isDigit then complete (parts ++ [t])
    else .error (.invalidNumber t.lineNumber (textOf parts))

def finish : State → Except Fault (List Token)
  | .idle _ => .ok []
  | .minus sign => .ok [sign]
  | .whole parts => (join parts).map fun number => [number]
  | .fraction parts =>
    if hasDigits parts then (join parts).map fun number => [number] else .ok parts
  | .exponentMark parts => .error (.invalidNumber (lineOf parts + 1) (textOf parts))
  | .exponentSign parts => .error (.invalidNumber (lineOf parts + 1) (textOf parts))

def machine : Transducer State Token Token Fault :=
  ⟨fun s t _ => step s t, finish⟩

/-- A point that is part of no numeral selects a member. -/
def settlePoint (t : Token) : Token :=
  if t.kind = .point then { t with kind := .member } else t

end VbSharp.Numeral

namespace VbSharp

/-- The tokens with every numeral joined into one and every other point made to select a member. -/
def joinNumerals (tokens : List Token) : Except Fault (List Token) :=
  (Numeral.machine.run (.idle true) tokens).map (·.map Numeral.settlePoint)

end VbSharp
