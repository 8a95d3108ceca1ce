import Stencil.Config.Basic
import Stencil.Event
import Stencil.Saturating

set_option autoImplicit false

namespace Stencil

inductive Phase where
  | sampling
  | baseline
deriving DecidableEq, Repr

-- What readers of a sizer see. Both parts are published at once, as one word.
structure Published where
  baseline : UInt64
  phase : Phase
deriving DecidableEq, Repr

namespace Published

def samplingBit : UInt64 := 0x8000000000000000

def largest : UInt64 := samplingBit - 1

-- The top bit says that the sizer is sampling. A baseline that needs this bit is cut to the largest
-- that does not.
def pack (published : Published) : UInt64 :=
  let clipped := if published.baseline ≤ largest then published.baseline else largest
  match published.phase with
  | .sampling => clipped ||| samplingBit
  | .baseline => clipped

def unpack (word : UInt64) : Published :=
  ⟨word &&& largest, if word &&& samplingBit ≠ 0 then .sampling else .baseline⟩

end Published

def deviates (predicted actual : UInt64) (percent : UInt32) : Bool :=
  Saturating.mul predicted percent.toUInt64 < Saturating.mul (Saturating.distance predicted actual) 100

structure Sizer where
  word : UInt64
  sum : UInt64
  count : UInt32
  config : SizerConfig
deriving DecidableEq, Repr

namespace Sizer

def measure (bytes : Bytes) : UInt64 := Saturating.ofNat bytes.length

def publish (published : Published) (sizer : Sizer) : Sizer := { sizer with word := published.pack }

def published (sizer : Sizer) : Published := .unpack sizer.word

def baseline (sizer : Sizer) : UInt64 := sizer.published.baseline

def phase (sizer : Sizer) : Phase := sizer.published.phase

def ofConfig (config : SizerConfig) : Sizer := ⟨Published.pack ⟨0, .sampling⟩, 0, 0, config⟩

def reset (sizer : Sizer) : Sizer := publish ⟨0, .sampling⟩ { sizer with sum := 0, count := 0 }

def configure (config : SizerConfig) (sizer : Sizer) : Sizer := reset { sizer with config := config }

-- Ends the run of samples if there are enough. A baseline of zero is not worth publishing: the sizer
-- starts over in silence.
def finishIfReady (sizer : Sizer) : Sizer × List Event :=
  if sizer.count < sizer.config.maxSamples then (sizer, [])
  else
    let average := sizer.sum / sizer.count.toUInt64
    let baseline := Saturating.mul average sizer.config.growth.toUInt64 / 100
    if baseline = 0 then (sizer.reset, [])
    else (sizer.publish ⟨baseline, .baseline⟩, [.baselineEstablished baseline sizer.count])

def sample (size : UInt64) (sizer : Sizer) : Sizer × List Event :=
  finishIfReady { sizer with sum := Saturating.add sizer.sum size, count := sizer.count + 1 }

def check (size : UInt64) (sizer : Sizer) : Sizer × List Event :=
  let baseline := sizer.baseline
  if baseline = 0 then (sizer, [])
  else if deviates baseline size sizer.config.variance then
    let after := finishIfReady (publish ⟨baseline, .sampling⟩ { sizer with sum := size, count := 1 })
    (after.1, .sizeDeviated size baseline :: after.2)
  else (sizer, [])

def update (size : UInt64) (sizer : Sizer) : Sizer × List Event :=
  match sizer.phase with
  | .sampling => sizer.sample size
  | .baseline => sizer.check size

inductive Step where
  | update (size : UInt64)
  | reset
  | configure (config : SizerConfig)
deriving DecidableEq, Repr

def step (sizer : Sizer) : Step → Sizer × List Event
  | .update size => sizer.update size
  | .reset => (sizer.reset, [])
  | .configure config => (sizer.configure config, [])

def run : List Step → Sizer → Sizer × List Event
  | [], sizer => (sizer, [])
  | first :: rest, sizer =>
      let after := sizer.step first
      let later := run rest after.1
      (later.1, after.2 ++ later.2)

end Sizer

end Stencil
