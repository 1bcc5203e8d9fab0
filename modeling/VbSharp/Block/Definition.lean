import VbSharp.Block.Body

/-!
# Definitions and declarations

`Option Explicit`, classes, routines and lists of variables. Each parser either finds its construct at
the cursor and passes over it, or answers `none` and leaves the cursor alone.
-/
namespace VbSharp.Parser

def optionExplicit : Parser (Option Block) := do
  let here ← view fun c => c.isKeyword "Option" && c.isKeywordLikeAt 1 "Explicit"
  if !here then return none
  move (·.advance 2)
  expectTerminator
  return some .optionExplicit

/-- The members of a class that have been seen: routines by name, accessors by name and kind. -/
structure Members where
  methods : List String := []
  accessors : List (String × RoutineKind) := []
  deriving Repr, DecidableEq

/-- Whether a routine's name is taken: a method shares its name with no other member, and a property
has one accessor of each kind. -/
def Members.takes (m : Members) (header : Header) : Bool :=
  let key := foldCase header.name.text
  if header.kind.isProperty then m.methods.contains key || m.accessors.contains (key, header.kind)
  else m.methods.contains key || m.accessors.any (·.1 == key)

def Members.add (m : Members) (header : Header) : Members :=
  let key := foldCase header.name.text
  if header.kind.isProperty then { m with accessors := (key, header.kind) :: m.accessors }
  else { m with methods := key :: m.methods }

def checkMembers (className : Token) (seen : Members) : List Block → Except Fault Unit
  | [] => .ok ()
  | .routine header _ :: rest =>
    if seen.takes header then
      .error (.duplicateMember header.name.lineNumber className.text header.name.text)
    else checkMembers className (seen.add header) rest
  | _ :: rest => checkMembers className seen rest

def classDefinition (body : Body) : Parser (Option Block) := do
  if !(← view (·.isKeyword "Class")) then return none
  let openedOn ← view Cursor.line
  move (·.advance 1)
  let name ← expectName
  expectTerminator
  let blocks ← bodyThrough body ["End", "Class"] openedOn
  expectTerminator
  lift (checkMembers name {} blocks)
  return some (.classDefinition name blocks)

/-- The words that open a routine, and how many they are. -/
structure Opening where
  kind : RoutineKind
  isPublic : Bool
  isDefault : Bool
  length : Nat
  deriving Repr, DecidableEq

/-- The kind of routine that starts at an offset, and how many words say so. A property needs a name
after its accessor word, since `Property` and `Get` can be names themselves. -/
def routineKind? (c : Cursor) (offset : Nat) : Option (RoutineKind × Nat) :=
  if c.isKeywordAt offset "Function" then some (.function, 1)
  else if c.isKeywordAt offset "Sub" then some (.sub, 1)
  else if c.isKeywordLikeAt offset "Property" && c.holdsAt (offset + 2) Token.isNameLike then
    if c.isKeywordLikeAt (offset + 1) "Get" then some (.propertyGet, 2)
    else if c.isKeywordAt (offset + 1) "Let" then some (.propertyLet, 2)
    else if c.isKeywordAt (offset + 1) "Set" then some (.propertySet, 2)
    else none
  else none

def opening? (c : Cursor) : Option Opening :=
  let isPrivate := !c.isKeyword "Public" && c.isKeyword "Private"
  let afterAccess := if c.isKeyword "Public" || isPrivate then 1 else 0
  let isDefault := c.isKeywordLikeAt afterAccess "Default"
  let offset := if isDefault then afterAccess + 1 else afterAccess
  (routineKind? c offset).map fun (kind, words) => ⟨kind, !isPrivate, isDefault, offset + words⟩

/-- How a parameter is passed, if it says so. -/
def passing : Parser Passing := do
  if ← view (·.isKeyword "ByVal") then
    move (·.advance 1)
    return .byVal
  else if ← view (·.isKeyword "ByRef") then
    move (·.advance 1)
    return .byRef
  else return .unspecified

def parameter : Parser Parameter := do
  let passing ← passing
  let name ← expectName
  let isArray ← view fun c =>
    c.holdsAt 0 (·.kind == .openBracket) && c.holdsAt 1 (·.kind == .closeBracket)
  if isArray then move (·.advance 2)
  return ⟨passing, name, isArray⟩

/-- The parameters after an open bracket. The budget has to exceed the number of tokens left. -/
def parameterList : Nat → Parser (List Parameter)
  | 0 => return []
  | budget + 1 => do
    let first ← parameter
    match ← next? with
    | some t =>
      if t.kind = .comma then return first :: (← parameterList budget)
      else if t.kind = .closeBracket then return [first]
      else throw (.malformed t.lineNumber (.strayInParameters t.text))
    | none => throw (.unbalancedBrackets ((← view Cursor.line) + 1))

def parameters : Parser (List Parameter) := do
  if !(← view (·.holdsAt 0 (·.kind == .openBracket))) then return []
  move (·.advance 1)
  if ← view (·.holdsAt 0 (·.kind == .closeBracket)) then
    move (·.advance 1)
    return []
  parameterList ((← view (·.rest.length)) + 1)

def routine (body : Body) : Parser (Option Block) := do
  match ← view opening? with
  | none => return none
  | some opening =>
    let openedOn ← view Cursor.line
    move (·.advance opening.length)
    let name ← expectName
    let parameters ← parameters
    expectTerminator
    let blocks ← bodyThrough body opening.kind.endWords openedOn
    expectTerminator
    return some (.routine ⟨opening.kind, name, opening.isPublic, opening.isDefault, parameters⟩ blocks)

/-- The word that opens a list of variables, and how many tokens it takes. -/
def declarationKind? (c : Cursor) : Option (DeclarationKind × Nat) :=
  if c.isKeyword "Dim" then some (.dim, 1)
  else if c.isKeyword "ReDim" then
    if c.isKeywordAt 1 "Preserve" then some (.reDim true, 2) else some (.reDim false, 1)
  else if c.isKeyword "Private" then some (.privateField, 1)
  else if c.isKeyword "Public" then some (.publicField, 1)
  else none

/-- The bounds after a variable's name, if there are any, and the tokens after them. -/
def bounds (tokens : List Token) : Except Fault (Option (List Expr) × List Token) :=
  match tokens with
  | t :: rest =>
    if t.kind = .openBracket then
      match closeGroup 0 rest with
      | none => .error (.unbalancedBrackets t.lineNumber)
      | some (inner, after) => (Expr.readList inner).map fun es => (some es, after)
    else .ok (none, tokens)
  | [] => .ok (none, [])

theorem bounds_length {tokens after : List Token} {found : Option (List Expr)}
    (read : bounds tokens = .ok (found, after)) : after.length ≤ tokens.length := by
  unfold bounds at read
  split at read
  · split at read
    · split at read
      · cases read
      · next inner rest closed =>
        cases result : Expr.readList inner with
        | error fault => rw [result] at read; cases read
        | ok es =>
          rw [result] at read
          cases read
          have := closeGroup_length closed
          simp only [List.length_cons]
          omega
    · cases read
      exact Nat.le_refl _
  · cases read
    exact Nat.le_refl _

/-- The variables of a declaration; `line` is reported if the list ends too early. -/
def variableList (line : Nat) (tokens : List Token) : Except Fault (List Variable) :=
  match tokens with
  | [] => .error (.malformed (line + 1) (.expectedVariable none))
  | name :: rest =>
    if !name.isNameLike then
      .error (.malformed name.lineNumber (.expectedVariable (some name.text)))
    else
      match read : bounds rest with
      | .error fault => .error fault
      | .ok (found, after) =>
        have := bounds_length read
        match after with
        | [] => .ok [⟨name, found⟩]
        | t :: more =>
          if t.kind = .comma then (variableList line more).map (⟨name, found⟩ :: ·)
          else .error (.malformed t.lineNumber (.strayInDeclaration t.text))
termination_by tokens.length
decreasing_by simp only [List.length_cons] at *; omega

def declaration : Parser (Option Block) := do
  match ← view declarationKind? with
  | none => return none
  | some (kind, length) =>
    let line ← view Cursor.line
    move (·.advance length)
    let tokens ← takeStatement
    let vars ← lift (variableList line tokens)
    if kind.isReDim && vars.any (·.bounds.isNone) then
      throw (.malformed (line + 1) .resizeWithoutBounds)
    return some (.declaration kind vars line)

end VbSharp.Parser
