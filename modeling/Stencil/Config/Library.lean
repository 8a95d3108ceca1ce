import Stencil.Config.Basic

set_option autoImplicit false

namespace Stencil

namespace Config

inductive Opened (ν : Type) where
  | object (entries : List (List Char × ν))
  | array (items : List ν)
  | other

-- What reads and writes JSON. A value is asked for a word, skipped, or set aside to be asked again.
structure Library (ν β : Type) where
  open? : String → Option (Opened ν)
  word : ν → Option UInt32
  skip : ν → Bool
  aside : ν → Option β
  again : β → Option UInt32
  compact : List (String × UInt32) → String

structure Visitor (ς ν α : Type) where
  start : ς
  visit : List Char → ν → ς → Option ς
  finish : ς → Option α

variable {ν β ς τ α : Type}

def Visitor.run (visitor : Visitor ς ν α) : List (List Char × ν) → ς → Option ς
  | [], state => some state
  | (key, value) :: rest, state => (visitor.visit key value state).bind (visitor.run rest)

def Visitor.read (visitor : Visitor ς ν α) (entries : List (List Char × ν)) : Option α :=
  (visitor.run entries visitor.start).bind visitor.finish

-- What is derived for the two records. The compiler's leaves to `inner` what it has set aside, and a sizer's can also be
-- read from a bare list of values.
structure Derived (ν β ς τ : Type) where
  sizer : Visitor ς ν SizerConfig
  inner : Visitor ς β SizerConfig
  compiler : Visitor τ ν CompilerConfig
  items : List ν → Option SizerConfig
  sizerEntries : SizerConfig → List (String × UInt32)
  compilerEntries : CompilerConfig → List (String × UInt32)

end Config

open Config (Library Derived)

variable {ν β ς τ : Type}

def SizerConfig.read (library : Library ν β) (derived : Derived ν β ς τ) (text : String) : Option SizerConfig :=
  match library.open? text with
  | some (.object entries) => derived.sizer.read entries
  | some (.array items) => derived.items items
  | some .other | none => none

def CompilerConfig.read (library : Library ν β) (derived : Derived ν β ς τ) (text : String) : Option CompilerConfig :=
  match library.open? text with
  | some (.object entries) => derived.compiler.read entries
  | some (.array _) | some .other | none => none

def SizerConfig.write (library : Library ν β) (derived : Derived ν β ς τ) (config : SizerConfig) : String :=
  library.compact (derived.sizerEntries config)

def CompilerConfig.write (library : Library ν β) (derived : Derived ν β ς τ) (config : CompilerConfig) : String :=
  library.compact (derived.compilerEntries config)

end Stencil
