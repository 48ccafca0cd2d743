import PolyRoots.Scalar.Native

namespace PolyRoots

namespace Nearest

open Float.Model (UnpackedFloat)

def rounded (f : Float.Model.Format) : UnpackedFloat → UnpackedFloat
  | .finite s m e _ => .round f s m e
  | u => u

def widen (x : Float32) : Float := .ofModel (.pack (rounded .binary64 x.toModel.unpack))

def narrow (x : Float) : Float32 := .ofModel (.pack (rounded .binary32 x.toModel.unpack))

def single (n : Int64) : Float32 := .ofModel (.ofInt64 n)

def double (n : Int64) : Float := .ofModel (.ofInt64 n)

end Nearest

end PolyRoots
