import VbSharp.Number.Integer
import VbSharp.Text.Blank
import VbSharp.Text.Fold

/-!
# Date literals

A date literal is checked as far as this can be done without knowing where the program will run. A
literal that names the same day everywhere is valid, one that names none is invalid, and one whose day
depends on the culture has to be checked at run time.
-/
namespace VbSharp

/-- The order in which a culture writes the numbers of a date. -/
inductive DateOrder where
  | monthDayYear
  | dayMonthYear
  | yearMonthDay
  deriving Repr, DecidableEq

/-- The culture that dates are checked for. -/
structure Culture where
  name : String := "en-US"
  dateOrder : DateOrder := .monthDayYear
  deriving Repr, DecidableEq

namespace Date

/-- What can be said about a date literal. -/
inductive Verdict where
  | valid
  | invalid
  | cultureDependent
  deriving Repr, DecidableEq

/-- A day of the calendar. -/
structure Day where
  year : Nat
  month : Nat
  day : Nat
  deriving Repr, DecidableEq

def monthNames : List String :=
  ["january", "february", "march", "april", "may", "june", "july", "august", "september",
    "october", "november", "december"]

/-- A year of one or two digits lies from 1930 to 2029. -/
def expandYear (year : Nat) : Nat :=
  if year ≤ 29 then 2000 + year else if year ≤ 99 then 1900 + year else year

def isLeapYear (year : Nat) : Bool :=
  (year % 4 == 0 && year % 100 != 0) || year % 400 == 0

/-- How many days a month has; none if there is no such month. -/
def daysIn (year month : Nat) : Nat :=
  if month = 2 then (if isLeapYear year then 29 else 28)
  else if [4, 6, 9, 11].contains month then 30
  else if [1, 3, 5, 7, 8, 10, 12].contains month then 31
  else 0

def Day.onCalendar (d : Day) : Bool :=
  100 ≤ d.year && d.year ≤ 9999 && 1 ≤ d.day && d.day ≤ daysIn d.year d.month

/-- The days that the numbers of a date can mean. Four digits at the start are the year; two numbers
are a month and a day in either order, for which a leap year is assumed; of three numbers the last is
the year, and for a culture that starts with the year also the first. -/
def candidates (order : DateOrder) (startsWithYear : Bool) : List Nat → List Day
  | [a, b] => [⟨2000, a, b⟩, ⟨2000, b, a⟩]
  | [a, b, c] =>
    if startsWithYear then [⟨expandYear a, b, c⟩]
    else
      [⟨expandYear c, a, b⟩, ⟨expandYear c, b, a⟩] ++
        if order = .yearMonthDay then [⟨expandYear a, b, c⟩] else []
  | _ => []

/-- A literal is valid if the days that it can mean come down to one. -/
def verdict (days : List Day) : Verdict :=
  match (days.filter Day.onCalendar).eraseDups with
  | [] => .invalid
  | [_] => .valid
  | _ => .cultureDependent

/-- A date of numbers only. -/
def numericVerdict (order : DateOrder) (parts : List (List Char)) : Verdict :=
  match parts.mapM word32? with
  | none => .invalid
  | some numbers => verdict (candidates order (parts.head?.any (·.length == 4)) numbers)

/-- The number of the month that a word of at least three letters abbreviates. -/
def month? (word : List Char) : Option Nat :=
  let small := word.map Char.toLower
  if small.length < 3 then none
  else (monthNames.findIdx? fun name => small.isPrefixOf name.toList).map (· + 1)

/-- Splits the parts of a date into the one month name and the numbers. -/
def namedParts (month : Option Nat) (numbers : List Nat) :
    List (List Char) → Option (Nat × List Nat)
  | [] => month.map fun m => (m, numbers.reverse)
  | part :: rest =>
    match word32? part with
    | some n => namedParts month (n :: numbers) rest
    | none =>
      match month? part, month with
      | some m, none => namedParts (some m) numbers rest
      | _, _ => none

/-- The day of a named month: a day alone, or with a year before or after it. -/
def namedDay (month : Nat) : List Nat → Option Day
  | [day] => some ⟨2000, month, day⟩
  | [a, b] => if 31 < a then some ⟨expandYear a, month, b⟩ else some ⟨expandYear b, month, a⟩
  | _ => none

/-- A date with the name of a month. The names are English, so other cultures check them at run
time. -/
def namedVerdict (cultureName : String) (parts : List (List Char)) : Verdict :=
  match (namedParts none [] parts).bind fun (month, numbers) => namedDay month numbers with
  | none => .invalid
  | some day =>
    if !day.onCalendar then .invalid
    else if ['e', 'n'].isPrefixOf (foldCase cultureName).toList then .valid
    else .cultureDependent

def isSeparator (c : Char) : Bool :=
  c == '/' || c == '-' || c == '.' || c == ',' || c == ' '

def dateVerdict (culture : Culture) (text : List Char) : Verdict :=
  let parts := fieldsAt isSeparator text
  if parts.any (·.any Char.isAlpha) then namedVerdict culture.name parts
  else numericVerdict culture.dateOrder parts

/-- The clock of a time and whether it counts twelve hours only. -/
def splitHalf (text : List Char) : List Char × Bool :=
  match text.reverse with
  | 'm' :: 'a' :: clock => (trimBlank clock.reverse, true)
  | 'm' :: 'p' :: clock => (trimBlank clock.reverse, true)
  | _ => (trimBlank text, false)

/-- The time part of a literal: hours, minutes and perhaps seconds, then perhaps a half of the day. -/
def isTime (text : List Char) : Bool :=
  let (clock, twelve) := splitHalf (text.map Char.toLower)
  let lastHour := if twelve then 12 else 23
  match (cutAt (· == ':') clock).map word32? with
  | [some h, some m] => h ≤ lastHour && m ≤ 59
  | [some h, some m, some s] => h ≤ lastHour && m ≤ 59 && s ≤ 59
  | _ => false

def spaced (words : List (List Char)) : List Char :=
  List.intercalate [' '] words

/-- What can be said about the text of a date literal. The first word with a colon starts its time. -/
def classify (culture : Culture) (literal : String) : Verdict :=
  let words := fieldsAt isBlank literal.toList
  let dateWords := words.takeWhile (!·.contains ':')
  let timeWords := words.dropWhile (!·.contains ':')
  if words.isEmpty then .invalid
  else if !timeWords.isEmpty && !isTime (spaced timeWords) then .invalid
  else if dateWords.isEmpty then .valid
  else dateVerdict culture (spaced dateWords)

end Date
end VbSharp
