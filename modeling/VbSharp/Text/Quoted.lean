import VbSharp.Text.Extending
import VbSharp.Text.Unprinted

/-!
# Quoted values

A value in quotes can be read off a line without doubt: its quotes and backslashes are marked, and what
would not be seen, or would change its neighbour, is written by its number.
-/
namespace VbSharp.Quoted

def numbered (c : Char) : List Char :=
  ['\\', 'u', '\x7b'] ++ Nat.toDigits 16 c.toNat ++ ['\x7d']

def isPlainAscii (c : Char) : Bool :=
  0x20 ≤ c.toNat && c.toNat ≤ 0x7E

def encodeChar (c : Char) : List Char :=
  if c == '\x22' then ['\\', '\x22']
  else if c == '\\' then ['\\', '\\']
  else if isPlainAscii c then [c]
  else if c == '\t' then ['\\', 't']
  else if c == '\r' then ['\\', 'r']
  else if c == '\n' then ['\\', 'n']
  else if c == '\x00' then ['\\', '0']
  else if isExtending c || isUnprinted c then numbered c
  else [c]

def encode (text : String) : String :=
  String.ofList ('\x22' :: text.toList.flatMap encodeChar ++ ['\x22'])

end VbSharp.Quoted
