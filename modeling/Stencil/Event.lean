import Stencil.Node.Path

set_option autoImplicit false

namespace Stencil

inductive Error where
  | structureMismatch (path : Path) (miss : Miss)
  | dynamicContent
deriving DecidableEq, Repr

def Error.message : Error → String
  | .structureMismatch path miss =>
      "node tree structure does not match the compiled execution plan: path " ++ path.text
        ++ " failed at depth " ++ toString miss.depth ++ ", expected child index " ++ toString miss.expected
        ++ " but node only has " ++ toString miss.available ++ " children"
  | .dynamicContent => "flattening requires static content; use a Compiler for dynamic content"

inductive Event where
  | planBuilt (pieces staticBytes dynamicPaths : Nat)
  | pathUnresolved (path : Path) (miss : Miss)
  | sizeDeviated (size baseline : UInt64)
  | baselineEstablished (baseline : UInt64) (samples : UInt32)
  | entryEvicted (id : String)
  | notFlattenable (id : String) (error : Error)
deriving DecidableEq, Repr

inductive Event.Level where
  | debug
  | trace
deriving DecidableEq, Repr

namespace Event

def level : Event → Level
  | .pathUnresolved _ _ => .trace
  | .planBuilt _ _ _ | .sizeDeviated _ _ | .baselineEstablished _ _ | .entryEvicted _ | .notFlattenable _ _ => .debug

def message : Event → String
  | .planBuilt _ _ _ => "execution plan built"
  | .pathUnresolved _ _ => "dynamic path unresolved, skipping"
  | .sizeDeviated _ _ => "render size deviated from baseline, resampling"
  | .baselineEstablished _ _ => "size baseline established"
  | .entryEvicted _ => "registry entry evicted"
  | .notFlattenable _ _ => "tree not flattenable, rendering directly"

end Event

end Stencil
