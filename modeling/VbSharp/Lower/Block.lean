import VbSharp.Log
import VbSharp.Lower.Statement

/-!
# Lowering blocks

The blocks of a program, class or routine become statements, and what they declare is collected to be
written at the top. Routines of the outermost code and classes are collected too, since they may be
placed elsewhere. A comment that shares its line with code goes behind the last line of that code; if the
code left no line it stands alone.
-/
namespace VbSharp.Lower

open CSharp (Term Simple Head Stmt Declaration Signature Visibility)

/-- The state of lowering: how many result variables have been handed out, and what has happened, the
last event first. -/
structure Progress where
  issued : Nat := 0
  events : List Event := []
  deriving Repr, DecidableEq

/-- A computation that lowers blocks. When it fails it keeps the events up to then. -/
abbrev Lowering := EStateM Fault Progress

/-- What some blocks of one scope become. -/
structure Emission where
  stmts : List Stmt := []
  declared : List Declaration := []
  notes : List Note := []
  /-- Routines of the outermost code that become methods. -/
  methods : List (List Stmt) := []
  classes : List Stmt := []
  deriving Repr

def Emission.append (a b : Emission) : Emission :=
  ⟨a.stmts ++ b.stmts, a.declared ++ b.declared, a.notes ++ b.notes, a.methods ++ b.methods,
    a.classes ++ b.classes⟩

instance : Append Emission :=
  ⟨Emission.append⟩

/-- What holds for a whole program: its culture, and whether its outermost code becomes a class. -/
structure Context where
  culture : Culture
  asClass : Bool
  deriving Repr, DecidableEq

def Context.site (ctx : Context) (scope : Scope) : Site :=
  ⟨scope, ctx.culture⟩

/-- Reports an event. -/
def report (e : Event) : Lowering Unit :=
  modify fun p => { p with events := e :: p.events }

def freshResult : Lowering String := do
  modify fun p => { p with issued := p.issued + 1 }
  return resultName (← get).issued

def noting {α : Type} (computation : Noting α) : Lowering (α × List Note) :=
  match computation with
  | .ok result => pure result
  | .error fault => throw fault

def single (computation : Noting Simple) : Lowering Emission := do
  let (content, notes) ← noting computation
  return { stmts := [.ofSimple content], notes := notes }

def isMember : Block → Bool
  | .blankLine | .comment _ _ | .declaration _ _ _ | .routine _ _ => true
  | _ => false

def firstLineNumber : Block → Nat
  | .declaration _ _ line => line + 1
  | .classDefinition name _ => name.lineNumber
  | .routine header _ => header.name.lineNumber
  | .branch condition _ _ => Expr.line condition + 1
  | .call e _ => Expr.line e + 1
  | .assignment _ target _ => Expr.line target + 1
  | .exit _ line => line + 1
  | .randomize _ line => line + 1
  | .doLoop _ _ line => line + 1
  | .whileLoop _ _ line => line + 1
  | .forLoop counter _ _ _ _ => counter.lineNumber
  | .forEach item _ _ => item.lineNumber
  | .select _ _ line => line + 1
  | .onError _ line => line + 1
  | .withTarget _ _ line => line + 1
  | .blankLine | .comment _ _ | .optionExplicit => 1

/-- Who sees the variables of a declaration. Only the field words say so, and only in a class. -/
def visibility (ctx : Context) (kind : FrameKind) (declaration : DeclarationKind) (line : Nat) :
    Except Fault Visibility :=
  match kind, declaration with
  | .classBody, .privateField => .ok .privateField
  | .classBody, .reDim _ => .error (.malformed (line + 1) .resizeInClass)
  | .classBody, _ => .ok .publicField
  | .program, _ => .ok (if ctx.asClass then .publicField else .localVariable)
  | .routine, _ => .ok .localVariable

/-- The variable that a declaration of a name stands for, and whether it is a new one. An array of an
enclosing scope is resized in place. -/
def declaredVariable (scope : Scope) (isReDim : Bool) (name : Token) : CSharp.Reference × Bool :=
  let fresh : CSharp.Reference × Bool := (⟨false, identifier name.text⟩, true)
  match scope.resolve name with
  | .variable target => if isReDim && !scope.declaresLocally name then (target, false) else fresh
  | _ => fresh

/-- Makes an array of the given bounds, with the elements it had if they are to be preserved. -/
def sizeArray (site : Site) (target : CSharp.Reference) (preserve : Bool) (bounds : List Expr) :
    Noting Simple := do
  let size := Term.objects (← expressions site bounds)
  if preserve then
    return .assign (.variable target) (.support "RESIZEARRAY" [.variable target, size])
  return .assign (.variable target) (.support "NEWARRAY" [size])

def variableEmission (ctx : Context) (scope : Scope) (kind : DeclarationKind)
    (visibility : Visibility) (v : Variable) : Lowering Emission := do
  let (target, isNew) := declaredVariable scope kind.isReDim v.name
  let declared : List Declaration :=
    if isNew then [⟨target.name, v.bounds.isSome, visibility⟩] else []
  match v.bounds with
  | none => return { declared := declared }
  | some [] => return { declared := declared }
  | some bounds =>
    if scope.kind == .classBody then throw (.unsupported v.name.lineNumber .sizedField)
    let out ← single (sizeArray (ctx.site scope) target (kind == .reDim true) bounds)
    return { out with declared := declared }

def variableEmissions (ctx : Context) (scope : Scope) (kind : DeclarationKind)
    (visibility : Visibility) : List Variable → Lowering Emission
  | [] => return {}
  | v :: rest => do
    let out ← variableEmission ctx scope kind visibility v
    return out ++ (← variableEmissions ctx scope kind visibility rest)

def declaration (ctx : Context) (scope : Scope) (kind : DeclarationKind) (vars : List Variable)
    (line : Nat) : Lowering Emission := do
  match visibility ctx scope.kind kind line with
  | .error fault => throw fault
  | .ok visibility => variableEmissions ctx scope kind visibility vars

def exit (scope : Scope) (kind : ExitKind) (line : Nat) : Except Fault Simple :=
  match kind with
  | .doLoop => .error (.unsupported (line + 1) .exitDo)
  | .forLoop => .error (.unsupported (line + 1) .exitFor)
  | _ =>
    if scope.kind == .routine then .ok (.leave (scope.result?.map (·.2)))
    else .error (.malformed (line + 1) .exitOutsideFunction)

def randomize (site : Site) : Option Expr → Noting Simple
  | none => return .expression (.support "RANDOMIZE" [])
  | some seed => do
    return .expression (.support "RANDOMIZE" [← expression site seed])

/-- The gap that a `Do` loop falls into. -/
def loopGap : LoopTest → Gap
  | .none => .doLoop
  | .whileBefore _ => .doWhileLoop
  | .untilBefore _ => .doUntilLoop
  | .whileAfter _ => .loopWhile
  | .untilAfter _ => .loopUntil

def condition (site : Site) (e : Expr) : Noting Term := do
  return .support "IF" [← expression site e]

/-- The name of the method of a routine. Accessors of a property are told apart by their prefix. -/
def methodName (header : Header) : String :=
  let name := identifier header.name.text
  match header.kind with
  | .propertyGet => "get_" ++ name
  | .propertyLet => "let_" ++ name
  | .propertySet => "set_" ++ name
  | _ => name

/-- The first line of the method of a routine. Methods say who can call them and local functions do not;
outermost routines that are methods are public whatever the script says. -/
def signature (header : Header) (kind : FrameKind) (asMethod : Bool) : Signature :=
  let access :=
    if kind == .classBody then (if header.isPublic then "public " else "private ")
    else if asMethod then "public " else ""
  ⟨access, header.kind.returnsValue, methodName header,
    header.parameters.map fun p => (p.passing.isByRef, identifier p.name.text)⟩

def attributes (header : Header) : List Stmt :=
  (if header.kind.isProperty then [.ofSimple (.propertyAttribute header.name.text)] else []) ++
    (if header.isDefault then [.ofSimple .defaultAttribute] else [])

/-- The statements of a routine's body: first what it declares, then what it does, then its result. -/
def methodBody (result : Option String) (declared : List Declaration) (stmts : List Stmt) :
    List Stmt :=
  let declarations := result.toList.map (fun name => Stmt.ofSimple (.declareResult name)) ++
    declared.map fun d => Stmt.ofSimple (.declare d)
  let gap := if declarations.isEmpty || stmts.isEmpty then [] else [Stmt.blank]
  declarations ++ gap ++ stmts ++
    result.toList.map fun name => Stmt.ofSimple (.leave (some name))

/-- The support objects that a generated class holds, and its constructor. -/
def classFrame (name : String) (takesOuter initializes : Bool) : List Stmt :=
  let outerField := if takesOuter then [Stmt.ofSimple (.readOnlyField CSharp.outerClass "_outer")] else []
  let storeOuter := if takesOuter then [Stmt.ofSimple (.storeField "_outer" "outer")] else []
  let setUp :=
    if initializes then [Stmt.ofSimple (.expression (.call ⟨false, "class_initialize"⟩ []))] else []
  [.ofSimple (.readOnlyField "IProvideVBScriptCompatFunctionality" "_"),
    .ofSimple (.readOnlyField "EnvironmentReferences" "_env")] ++ outerField ++
  [.blank, .ofBlock (.constructor name takesOuter)
    ([.ofSimple (.storeField "_" "compatLayer"), .ofSimple (.storeField "_env" "env")] ++
      storeOuter ++ setUp)]

/-- Whether a public property takes arguments beside the value it is set to. -/
def hasIndexedProperty (body : List Block) : Bool :=
  body.any fun
    | .routine header _ =>
      header.kind.isProperty && header.isPublic &&
        (if header.kind == .propertyGet then !header.parameters.isEmpty
          else 1 < header.parameters.length)
    | _ => false

def hasInitializer (body : List Block) : Bool :=
  body.any fun
    | .routine header _ => header.kind == .sub && nameKey header.name.text == "class_initialize"
    | _ => false

def classStmt (name : Token) (body : List Block) (members : Emission) : Stmt :=
  let identifier := identifier name.text
  let fields := (Declaration.merge members.declared).map fun d => Stmt.ofSimple (.declare d)
  let methods :=
    if members.stmts.all Stmt.isBlank then [] else Stmt.blank :: Stmt.trim members.stmts
  .ofBlock (.classDefinition identifier (hasIndexedProperty body))
    (fields ++ classFrame identifier true (hasInitializer body) ++ methods)

/-- Puts a comment behind the last of some statements, if that one takes it. -/
def addRemark? (text : String) (stmts : List Stmt) : Option (List Stmt) :=
  match stmts.reverse with
  | [] => none
  | last :: before => (last.addRemark? text).map fun last => before.reverse ++ [last]

mutual

def block (ctx : Context) (scope : Scope) (b : Block) : Lowering Emission := do
  if scope.kind == .classBody && !isMember b then
    throw (.malformed (firstLineNumber b) .strayInClass)
  match b with
  | .blankLine => return { stmts := [.blank] }
  | .comment text _ => return { stmts := [.ofSimple (.comment text)] }
  | .optionExplicit => return {}
  | .declaration kind vars line => declaration ctx scope kind vars line
  | .classDefinition name body =>
    if scope.kind != .program then throw (.malformed name.lineNumber .nestedClass)
    let members ← blocks ctx (scope.ofClass body) [] body
    return { notes := members.notes, methods := members.methods,
             classes := members.classes ++ [classStmt name body members] }
  | .routine header body =>
    if header.kind.isProperty then
      if scope.kind != .classBody then
        throw (.unsupported header.name.lineNumber .propertyOutsideClass)
    else if scope.kind == .routine then
      throw (.malformed header.name.lineNumber .nestedFunction)
    let asMethod := ctx.asClass && scope.kind == .program
    let result ← if header.kind.returnsValue then some <$> freshResult else pure none
    let inner ← blocks ctx (scope.ofRoutine header body result) [] body
    let declared := Declaration.merge inner.declared
    report (.routineDeclared header.name.text declared.length)
    let method := Stmt.ofBlock (.method (signature header scope.kind asMethod))
      (methodBody result declared inner.stmts)
    let stmts := (if scope.kind == .classBody then attributes header else []) ++ [method]
    if asMethod then
      return { notes := inner.notes, methods := inner.methods ++ [stmts], classes := inner.classes }
    return { stmts := stmts, notes := inner.notes, methods := inner.methods, classes := inner.classes }
  | .branch test body rest =>
    let (test, notes) ← noting (condition (ctx.site scope) test)
    let inner ← blocks ctx scope [] body
    let others ← alternative ctx scope rest
    return { notes := notes } ++
      { inner with stmts := [.ofBlock (.branch test) inner.stmts] } ++ others
  | .call e _ => single (callStatement (ctx.site scope) e)
  | .assignment kind target value => single (assignment (ctx.site scope) kind target value)
  | .exit kind line =>
    match exit scope kind line with
    | .ok content => return { stmts := [.ofSimple content] }
    | .error fault => throw fault
  | .randomize seed _ => single (randomize (ctx.site scope) seed)
  | .doLoop test _ line => throw (.unsupported (line + 1) (loopGap test))
  | .whileLoop _ _ line => throw (.unsupported (line + 1) .whileLoop)
  | .forLoop counter _ _ _ _ => throw (.unsupported counter.lineNumber .forLoop)
  | .forEach item _ _ => throw (.unsupported item.lineNumber .forEachLoop)
  | .select _ _ line => throw (.unsupported (line + 1) .selectCase)
  | .onError _ line => throw (.unsupported (line + 1) .onError)
  | .withTarget _ _ line => throw (.unsupported (line + 1) .withBlock)

/-- Lowers blocks; `pending` holds the statements of the block before them, behind which a comment may
still go. -/
def blocks (ctx : Context) (scope : Scope) (pending : List Stmt) : List Block → Lowering Emission
  | [] => return { stmts := pending }
  | .comment text true :: rest => do
    match addRemark? text pending with
    | some remarked =>
      let more ← blocks ctx scope [] rest
      return { stmts := remarked } ++ more
    | none =>
      let more ← blocks ctx scope [.ofSimple (.comment text)] rest
      return { stmts := pending } ++ more
  | b :: rest => do
    let out ← block ctx scope b
    let more ← blocks ctx scope out.stmts rest
    return { out with stmts := pending } ++ more

def alternative (ctx : Context) (scope : Scope) : Alternative → Lowering Emission
  | .none => return {}
  | .elseIf test body rest => do
    let (test, notes) ← noting (condition (ctx.site scope) test)
    let inner ← blocks ctx scope [] body
    let others ← alternative ctx scope rest
    return { notes := notes } ++
      { inner with stmts := [.ofBlock (.elseBranch test) inner.stmts] } ++ others
  | .otherwise body => do
    let inner ← blocks ctx scope [] body
    return { inner with stmts := [.ofBlock .otherwise inner.stmts] }

end

end VbSharp.Lower
