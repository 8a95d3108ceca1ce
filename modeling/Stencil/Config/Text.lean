import Stencil.Config.Library
import Stencil.Json.Plain

set_option autoImplicit false

namespace Stencil

namespace Config

def opened? : Json → Option (Opened Json)
  | .object members =>
      (members.mapM fun member => (Json.decodeGlyphs member.1).map (·, member.2)).map .object
  | .array items => some (.array items)
  | .null | .bool _ | .number _ | .text _ => some .other

def memberChars (name : String) (value : UInt32) : List Char :=
  '\x22' :: (name.toList ++ ('\x22' :: ':' :: Decimal.digits value.toNat))

def joinMembers : List (List Char) → List Char
  | [] => []
  | [last] => last
  | member :: members => member ++ (',' :: joinMembers members)

def objectChars (members : List (List Char)) : List Char := '\x7b' :: (joinMembers members ++ ['\x7d'])

def compactChars (entries : List (String × UInt32)) : List Char :=
  objectChars (entries.map fun entry => memberChars entry.1 entry.2)

-- The library that runs. A value that is skipped has been read already, so only its grammar matters.
def json : Library Json Json where
  open? text := (Json.ofChars? text.toList).bind opened?
  word := Json.word?
  skip _ := true
  aside value := if value.keepable then some value else none
  again := Json.word?
  compact entries := String.ofList (compactChars entries)

variable {ν β ς κ α : Type}

def recordVisitor [DecidableEq κ] (field? : List Char → Option κ) (word : ν → Option UInt32) (skip : ν → Bool)
    (finish : (κ → Option UInt32) → α) : Visitor (κ → Option UInt32) ν α where
  start _ := none
  visit key value held :=
    match field? key with
    | none => if skip value then some held else none
    | some field =>
        match held field, word value with
        | none, some given => some fun other => if other = field then some given else held other
        | _, _ => none
  finish held := some (finish held)

def sizerVisitor (word : ν → Option UInt32) (skip : ν → Bool) :
    Visitor (SizerConfig.Field → Option UInt32) ν SizerConfig :=
  recordVisitor SizerConfig.Field.ofChars? word skip fun held =>
    ⟨(held .maxSamples).getD SizerConfig.standard.maxSamples, (held .variance).getD SizerConfig.standard.variance,
      (held .growth).getD SizerConfig.standard.growth⟩

def compilerVisitor (library : Library ν β) (inner : Visitor ς β SizerConfig) :
    Visitor (Option UInt32 × List (List Char × β)) ν CompilerConfig where
  start := (none, [])
  visit key value state :=
    if key = CompilerConfig.Field.updateThreshold.name.toList then
      match state.1, library.word value with
      | none, some given => some (some given, state.2)
      | _, _ => none
    else (library.aside value).map fun kept => (state.1, state.2 ++ [(key, kept)])
  finish state :=
    (inner.read state.2).map fun sizer => ⟨state.1.getD CompilerConfig.standard.updateThreshold, sizer⟩

-- Values without keys fill the fields in order; there may be fewer of them, but not more.
def fill (word : ν → Option UInt32) (set : κ → UInt32 → α → α) : List κ → List ν → α → Option α
  | _, [], config => some config
  | field :: fields, value :: values, config =>
      match word value with
      | some given => fill word set fields values (set field given config)
      | none => none
  | [], _ :: _, _ => none

def sizerEntries (config : SizerConfig) : List (String × UInt32) :=
  SizerConfig.Field.all.map fun field => (field.name, config.get field)

def compilerEntries (config : CompilerConfig) : List (String × UInt32) :=
  (CompilerConfig.Field.updateThreshold.name, config.updateThreshold) :: sizerEntries config.sizer

def derived : Derived Json Json (SizerConfig.Field → Option UInt32) (Option UInt32 × List (List Char × Json)) where
  sizer := sizerVisitor json.word json.skip
  inner := sizerVisitor json.again fun _ => true
  compiler := compilerVisitor json (sizerVisitor json.again fun _ => true)
  items values := fill json.word SizerConfig.set SizerConfig.Field.all values .standard
  sizerEntries := sizerEntries
  compilerEntries := compilerEntries

end Config

open Config (json derived)

def SizerConfig.ofText? (text : String) : Option SizerConfig := read json derived text

def SizerConfig.text (config : SizerConfig) : String := config.write json derived

def CompilerConfig.ofText? (text : String) : Option CompilerConfig := read json derived text

def CompilerConfig.text (config : CompilerConfig) : String := config.write json derived

end Stencil
