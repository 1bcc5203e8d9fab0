import VbSharp.Text.Blank

/-!
# Markup as string expressions

The markup of a page is written out by the script, so it becomes a string expression. A string literal
cannot hold a line end or any other control character; these are named constants between the literals.
The pieces of a markup spell exactly that markup.
-/
namespace VbSharp.Page

/-- The control characters that have a name. -/
inductive Control where
  | newLine
  | carriageReturn
  | lineFeed
  | tab
  | verticalTab
  | formFeed
  | null
  deriving Repr, DecidableEq

namespace Control

def chars : Control → List Char
  | .newLine => ['\r', '\n']
  | .carriageReturn => ['\r']
  | .lineFeed => ['\n']
  | .tab => ['\t']
  | .verticalTab => ['\x0b']
  | .formFeed => ['\x0c']
  | .null => ['\x00']

def name : Control → String
  | .newLine => "vbCrLf"
  | .carriageReturn => "vbCr"
  | .lineFeed => "vbLf"
  | .tab => "vbTab"
  | .verticalTab => "vbVerticalTab"
  | .formFeed => "vbFormFeed"
  | .null => "vbNullChar"

def ofChar? (c : Char) : Option Control :=
  [carriageReturn, lineFeed, tab, verticalTab, formFeed, null].find? (·.chars == [c])

end Control

/-- A piece of markup: a run of characters that a literal can hold, or a constant. -/
inductive Piece where
  | text (run : List Char)
  | control (constant : Control)
  deriving Repr, DecidableEq

def Piece.chars : Piece → List Char
  | .text run => run
  | .control constant => constant.chars

/-- Puts a character in front of the pieces; a run of text takes it in. -/
def consText (c : Char) : List Piece → List Piece
  | .text run :: rest => .text (c :: run) :: rest
  | rest => .text [c] :: rest

def pieces : List Char → List Piece
  | [] => []
  | '\r' :: '\n' :: rest => .control .newLine :: pieces rest
  | c :: rest =>
    match Control.ofChar? c with
    | some constant => .control constant :: pieces rest
    | none => consText c (pieces rest)

/-- The string literal of a text: every quotation mark in it is doubled. -/
def quote (text : List Char) : List Char :=
  '\x22' :: text.flatMap (fun c => if c == '\x22' then ['\x22', '\x22'] else [c]) ++ ['\x22']

def Piece.render : Piece → String
  | .text run => String.ofList (quote run)
  | .control constant => constant.name

def markupExpression (markup : List Char) : String :=
  joinText " & " ((pieces markup).map Piece.render)

end VbSharp.Page
