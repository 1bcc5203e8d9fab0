import VbSharp.CSharp.Stmt

/-!
# How generated code is written

One equation for each kind of expression and statement that holds others or a name.
-/
namespace VbSharp.CSharp

namespace Term

theorem render_support (function : String) (arguments : List Term) :
    (support function arguments).render = "_." ++ function ++ "(" ++ commas (renderAll arguments) ++ ")" := rfl

theorem render_call (target : Reference) (arguments : List Term) :
    (call target arguments).render = target.render ++ "(" ++ commas (renderAll arguments) ++ ")" := rfl

theorem render_byRef (argument : Term) : (byRef argument).render = "ref " ++ argument.render := rfl

theorem render_objects (items : List Term) :
    (objects items).render = "new object[] \x7b " ++ commas (renderAll items) ++ " \x7d" := rfl

end Term

namespace Simple

end Simple

end VbSharp.CSharp
