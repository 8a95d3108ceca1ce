set_option autoImplicit false

namespace Stencil

structure SizerConfig where
  maxSamples : UInt32
  variance : UInt32
  growth : UInt32
deriving DecidableEq, Repr

structure CompilerConfig where
  updateThreshold : UInt32
  sizer : SizerConfig
deriving DecidableEq, Repr

def SizerConfig.standard : SizerConfig := ⟨5, 20, 115⟩

def CompilerConfig.standard : CompilerConfig := ⟨15, .standard⟩

inductive SizerConfig.Field where
  | maxSamples
  | variance
  | growth
deriving DecidableEq, Repr

namespace SizerConfig

def Field.all : List Field := [.maxSamples, .variance, .growth]

def Field.name : Field → String
  | .maxSamples => "max_samples"
  | .variance => "variance_threshold_pct"
  | .growth => "growth_factor_pct"

def Field.ofChars? (chars : List Char) : Option Field := Field.all.find? fun field => field.name.toList == chars

def get (config : SizerConfig) : Field → UInt32
  | .maxSamples => config.maxSamples
  | .variance => config.variance
  | .growth => config.growth

def set (field : Field) (value : UInt32) (config : SizerConfig) : SizerConfig :=
  match field with
  | .maxSamples => { config with maxSamples := value }
  | .variance => { config with variance := value }
  | .growth => { config with growth := value }

end SizerConfig

inductive CompilerConfig.Field where
  | updateThreshold
  | sizer (field : SizerConfig.Field)
deriving DecidableEq, Repr

namespace CompilerConfig

def Field.all : List Field := .updateThreshold :: SizerConfig.Field.all.map .sizer

def Field.name : Field → String
  | .updateThreshold => "update_threshold_pct"
  | .sizer field => field.name

def get (config : CompilerConfig) : Field → UInt32
  | .updateThreshold => config.updateThreshold
  | .sizer field => config.sizer.get field

def set (field : Field) (value : UInt32) (config : CompilerConfig) : CompilerConfig :=
  match field with
  | .updateThreshold => { config with updateThreshold := value }
  | .sizer field => { config with sizer := config.sizer.set field value }

end CompilerConfig

end Stencil
