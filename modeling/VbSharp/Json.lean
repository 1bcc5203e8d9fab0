/-!
# JSON values
-/
namespace VbSharp

/-- A JSON value. An escape can name half of a surrogate pair, and such a text is no string of
characters; it is `none` here. -/
inductive JsonValue where
  | null
  | boolean (value : Bool)
  /-- A number as it is written. -/
  | number (text : String)
  | string (text : Option String)
  | array (items : List JsonValue)
  | object (fields : List (Option String × JsonValue))
  deriving Repr

end VbSharp
