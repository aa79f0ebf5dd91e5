import Stylesheet.Span
import Stylesheet.Text.Bytes

/-! # Cursors

A cursor moves forward through a source and counts its bytes without bound. The
positions read off it are 32-bit words, so they wrap.
-/

namespace Stylesheet

open Text

structure Cursor where
  file : String
  offset : Nat
  deriving DecidableEq

namespace Cursor

def start (file : String) : Cursor := ⟨file, 0⟩

def advance (cursor : Cursor) (length : Nat) : Cursor :=
  { cursor with offset := cursor.offset + length }

def position (cursor : Cursor) : Position :=
  ⟨UInt32.ofNat cursor.offset, cursor.file⟩

/-- The span of the next `length` bytes. -/
def span (cursor : Cursor) (length : Nat) : Span :=
  ⟨cursor.position, (cursor.advance length).position⟩

/-- The source from the cursor on; nothing past the end or inside a character. -/
def remainder? (cursor : Cursor) (source : String) : Option String :=
  (dropBytes? cursor.offset source.toList).map String.ofList

def atEnd (cursor : Cursor) (source : String) : Bool :=
  byteLength source.toList ≤ cursor.offset

end Cursor

end Stylesheet
