import Stencil.Compiler

set_option autoImplicit false

namespace Stencil.Batch

variable {σ : Type}

def validateEach (compiler : Compiler) (candidates : List (Node σ)) : List (Except Error Unit) :=
  candidates.map compiler.validate

def validateAll (compiler : Compiler) : List (Node σ) → Except Error Unit
  | [] => .ok ()
  | candidate :: rest =>
      match compiler.validate candidate with
      | .ok _ => validateAll compiler rest
      | .error error => .error error

def renderEach (compiler : Compiler) (pool : Pool) : List (Node σ) → σ → Reply Compiler σ (List Bytes)
  | [], world => ⟨compiler, pool, world, [], .ok []⟩
  | root :: rest, world =>
      let first := compiler.render pool root world
      match first.result with
      | .error message => { first with result := .error message }
      | .ok bytes =>
          let later := renderEach first.self first.pool rest first.world
          { later with events := first.events ++ later.events, result := later.result.map (bytes :: ·) }

end Stencil.Batch
