import Cosmos3.Basis.Checks
import Cosmos3.Basis.Python

namespace Cosmos3.Edge

open Basis Basis.Python

def mib : ℤ := 1024 * 1024

-- A frozenset of integers is the list of its members in order.
structure MediaLimits where
  resolutions : List ℤ := [256, 480, 720]
  validDimensions : List ℤ := [256, 480, 640, 720, 960, 1280]
  maxNumFrames : ℤ := 720
  audioSampleRate : ℤ := 48000
  audioChannels : ℤ := 2
  maxAudioSeconds : Number := .finite 60
  maxImageBytes : ℤ := 32 * mib
  maxVideoBytes : ℤ := 512 * mib
  maxAudioBytes : ℤ := 64 * mib
  maxImageDimension : ℤ := 4096

namespace MediaLimits

def default : MediaLimits := {}

section Environment

variable (environ : Text → Option Text)

-- A setting that is absent keeps the grounded default, which the source prints and
-- reads back.
def setting {α : Type} (read : Value → Except Exn α) (name : Text) (fallback : α) : Except Exn α :=
  match environ name with
  | none => .ok fallback
  | some text => read (.str text)

def fromEnv : Except Exn MediaLimits := do
  let d := default
  let maxNumFrames ← setting environ intOf (ascii "COSMOS3_MAX_NUM_FRAMES") d.maxNumFrames
  let audioSampleRate ← setting environ intOf (ascii "COSMOS3_AUDIO_SAMPLE_RATE") d.audioSampleRate
  let audioChannels ← setting environ intOf (ascii "COSMOS3_AUDIO_CHANNELS") d.audioChannels
  let maxAudioSeconds ←
    setting environ floatOf (ascii "COSMOS3_MAX_AUDIO_SECONDS") d.maxAudioSeconds
  let maxImageBytes ← setting environ intOf (ascii "COSMOS3_MAX_IMAGE_BYTES") d.maxImageBytes
  let maxVideoBytes ← setting environ intOf (ascii "COSMOS3_MAX_VIDEO_BYTES") d.maxVideoBytes
  let maxAudioBytes ← setting environ intOf (ascii "COSMOS3_MAX_AUDIO_BYTES") d.maxAudioBytes
  let maxImageDimension ←
    setting environ intOf (ascii "COSMOS3_MAX_IMAGE_DIMENSION") d.maxImageDimension
  .ok {
    resolutions := d.resolutions
    maxNumFrames, audioSampleRate, audioChannels, maxAudioSeconds
    maxImageBytes, maxVideoBytes, maxAudioBytes, maxImageDimension }

end Environment

end MediaLimits

end Cosmos3.Edge
