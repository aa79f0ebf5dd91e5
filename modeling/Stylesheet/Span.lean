/-! # Places in a source

A position is a byte offset in a named file and a span is a pair of positions.
Offsets are 32-bit words.
-/

namespace Stylesheet

structure Position where
  offset : UInt32
  file : String
  deriving DecidableEq

def Position.unknown : Position := ⟨0, "<null>"⟩

structure Span where
  start : Position
  stop : Position
  deriving DecidableEq

def Span.unknown : Span := ⟨.unknown, .unknown⟩

end Stylesheet
