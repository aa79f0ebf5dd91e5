import Stylesheet.Token

/-! # Token streams

A stream is what is left to read: pending tokens and the closing token behind
them, which can be read again and again.
-/

namespace Stylesheet

structure TokenStream where
  pending : List Token
  endText : String
  endSpan : Span
  deriving DecidableEq

namespace TokenStream

/-- The stream of a list of tokens. Where the list does not close itself, the
closing token stands at the end of the last token. -/
def ofTokens (file : String) (tokens : List Token) : TokenStream :=
  match tokens.getLast? with
  | none => ⟨[], "EOF", ⟨⟨0, file⟩, ⟨0, file⟩⟩⟩
  | some last =>
    if last.kind = .endOfInput then ⟨tokens.dropLast, last.text, last.span⟩
    else ⟨tokens, "EOF", ⟨last.span.stop, last.span.stop⟩⟩

variable (stream : TokenStream)

def ending : Token := ⟨.endOfInput, stream.endText, stream.endSpan⟩

def current : Token :=
  match stream.pending with
  | [] => stream.ending
  | token :: _ => token

def following : Token :=
  match stream.pending with
  | _ :: token :: _ => token
  | _ => stream.ending

def advance : TokenStream := { stream with pending := stream.pending.tail }

def size : Nat := stream.pending.length

/-- Whether the current token is a closing one, also where others follow it. -/
def atEnd : Bool := stream.current.kind = .endOfInput

variable {stream}

theorem size_advance_le : stream.advance.size ≤ stream.size := by
  simp [advance, size]

theorem size_advance_lt (h : stream.current.kind ≠ .endOfInput) :
    stream.advance.size < stream.size := by
  obtain ⟨pending, endText, endSpan⟩ := stream
  cases pending with
  | nil => exact absurd rfl h
  | cons token pending => simp [advance, size]

end TokenStream

end Stylesheet
