import Stencil.Node.Basic

set_option autoImplicit false

namespace Stencil

structure World where
  cells : Array Nat
  log : List String

namespace World

def empty : World := ⟨#[], []⟩

def allocate (world : World) : Nat × World :=
  (world.cells.size, { world with cells := world.cells.push 0 })

def count (world : World) (cell : Nat) : Nat := (world.cells[cell]?).getD 0

def advance (cell : Nat) (world : World) : World :=
  { world with cells := world.cells.modify cell (· + 1) }

def note (id call : String) (world : World) : World :=
  if id.isEmpty then world else { world with log := world.log ++ [id ++ "." ++ call] }

end World

structure Probe where
  id : String
  before : String
  after : String
  wrap : Option (String × String)
  dynamic : Bool
  faultsOn : List Nat

namespace Probe

def tags (probe : Probe) : Option (Tags World) :=
  probe.wrap.map fun wrap =>
    ⟨(Effect.change (World.note probe.id "open")).andThen (.write (utf8 wrap.1)),
      (Effect.change (World.note probe.id "close")).andThen (.write (utf8 wrap.2))⟩

def attempt (probe : Probe) (cell : Nat) : Effect World := fun world =>
  let counted := world.advance cell
  let call := counted.count cell
  if probe.faultsOn.contains call then
    Effect.fail (probe.id ++ " failed on render " ++ toString call) counted
  else Effect.skip counted

def body (probe : Probe) (cell : Nat) (inside : Effect World) : Effect World :=
  (Effect.change (World.note probe.id "render")).andThen
    ((Effect.write (utf8 probe.before)).andThen
      ((probe.attempt cell).andThen (inside.andThen (.write (utf8 probe.after)))))

end Probe

inductive Blueprint where
  | element (tag : String) (attributes : List (String × String)) (dynamic : Bool) (children : List Blueprint)
  | text (leaf : Text)
  | fragment (children : List Blueprint)
  | func (content : Blueprint)
  | funcs (contents : List Blueprint)
  | choice (condition : Bool) (yes : Blueprint) (no : Option Blueprint)
  | counter (label : String)
  | nest (times : Nat) (tag : Option String) (core : Blueprint)
  | many (times : Nat) (each : Blueprint)
  | probe (settings : Probe) (children : List Blueprint)

namespace Blueprint

def wrapped (tag : Option String) : Nat → Node World → Node World
  | 0, node => node
  | times + 1, node =>
      wrapped tag times (match tag with
        | some tag => .element tag [] false [node]
        | none => .fragment [node])

def repeated (build : World → Node World × World) : Nat → World → List (Node World) × World
  | 0, world => ([], world)
  | times + 1, world =>
      let first := build world
      let rest := repeated build times first.2
      (first.1 :: rest.1, rest.2)

def counting (label : String) (cell : Nat) : Node World :=
  .func (fun world => .text (.live (label ++ toString (world.count cell)))) (World.advance cell)

mutual
def build : Blueprint → World → Node World × World
  | .element tag attributes dynamic children, world =>
      let built := buildAll children world
      (.element tag attributes dynamic built.1, built.2)
  | .text leaf, world => (.text leaf, world)
  | .fragment children, world =>
      let built := buildAll children world
      (.fragment built.1, built.2)
  | .func content, world =>
      (.func (fun now => (build content now).1) (fun now => (build content now).2), world)
  | .funcs contents, world =>
      (.funcs (fun now => (buildAll contents now).1) (fun now => (buildAll contents now).2), world)
  | .choice condition yes no, world =>
      let builtYes := build yes world
      let builtNo := buildOption no builtYes.2
      (.choice condition builtYes.1 builtNo.1, builtNo.2)
  | .counter label, world =>
      let cell := world.allocate
      (counting label cell.1, cell.2)
  | .nest times tag core, world =>
      let built := build core world
      (wrapped tag times built.1, built.2)
  | .many times each, world =>
      let built := repeated (build each) times world
      (.fragment built.1, built.2)
  | .probe settings children, world =>
      let built := buildAll children world
      let cell := built.2.allocate
      (.custom settings.dynamic settings.tags (settings.body cell.1 (Node.renderAll built.1)) built.1, cell.2)

def buildAll : List Blueprint → World → List (Node World) × World
  | [], world => ([], world)
  | first :: rest, world =>
      let builtFirst := build first world
      let builtRest := buildAll rest builtFirst.2
      (builtFirst.1 :: builtRest.1, builtRest.2)

def buildOption : Option Blueprint → World → Option (Node World) × World
  | none, world => (none, world)
  | some content, world =>
      let built := build content world
      (some built.1, built.2)
end

end Blueprint

end Stencil
