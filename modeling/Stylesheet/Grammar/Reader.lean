import Stylesheet.Fault
import Stylesheet.Token.Stream

/-! # Reading tokens

A reader takes tokens off a stream. When it fails it leaves the stream where
the fault was found. A reader is steady when its success never leaves more
tokens than there were, and it advances when its success leaves fewer.
-/

namespace Stylesheet

abbrev TokenReader := EStateM Fault TokenStream

/-- Success leaves no more tokens than there were. -/
def Steady {α : Type} (reader : TokenReader α) : Prop :=
  ∀ stream a rest, reader stream = .ok a rest → rest.size ≤ stream.size

/-- Success leaves fewer tokens than there were. -/
def Advances {α : Type} (reader : TokenReader α) : Prop :=
  ∀ stream a rest, reader stream = .ok a rest → rest.size < stream.size

section

variable {α β : Type} {reader : TokenReader α} {next : α → TokenReader β}

theorem Advances.steady (h : Advances reader) : Steady reader :=
  fun stream a rest hr => Nat.le_of_lt (h stream a rest hr)

theorem bind_eq_ok {stream rest : TokenStream} {b : β} :
    (reader >>= next) stream = .ok b rest ↔
      ∃ a between, reader stream = .ok a between ∧ next a between = .ok b rest := by
  change EStateM.bind reader next stream = .ok b rest ↔ _
  unfold EStateM.bind
  cases reader stream with
  | ok a between =>
    constructor
    · intro h; exact ⟨a, between, rfl, h⟩
    · rintro ⟨_, _, ⟨⟩, h⟩; exact h
  | error => simp

theorem Steady.pure (a : α) : Steady (pure a : TokenReader α) := by
  intro stream b rest h
  cases h
  exact Nat.le_refl _

theorem Steady.throw (fault : Fault) : Steady (throw fault : TokenReader α) := by
  intro stream a rest h
  cases h

theorem Advances.throw (fault : Fault) : Advances (throw fault : TokenReader α) := by
  intro stream a rest h
  cases h

theorem Steady.get : Steady (get : TokenReader TokenStream) := by
  intro stream a rest h
  cases h
  exact Nat.le_refl _

theorem Steady.bind (h : Steady reader) (hn : ∀ a, Steady (next a)) :
    Steady (reader >>= next) := by
  intro stream b rest hb
  obtain ⟨a, between, ha, hb⟩ := bind_eq_ok.mp hb
  exact Nat.le_trans (hn a _ _ _ hb) (h _ _ _ ha)

theorem Advances.bind (h : Advances reader) (hn : ∀ a, Steady (next a)) :
    Advances (reader >>= next) := by
  intro stream b rest hb
  obtain ⟨a, between, ha, hb⟩ := bind_eq_ok.mp hb
  exact Nat.lt_of_le_of_lt (hn a _ _ _ hb) (h _ _ _ ha)

theorem Steady.bind_advances (h : Steady reader) (hn : ∀ a, Advances (next a)) :
    Advances (reader >>= next) := by
  intro stream b rest hb
  obtain ⟨a, between, ha, hb⟩ := bind_eq_ok.mp hb
  exact Nat.lt_of_lt_of_le (hn a _ _ _ hb) (h _ _ _ ha)

/-- Read again and again as long as `wanted` holds of the stream. Every round
advances, so there is a last one. -/
def readWhile (wanted : TokenStream → Bool) (reader : TokenReader α)
    (advances : Advances reader) : TokenReader (List α) := fun stream =>
  if wanted stream then
    match h : reader stream with
    | .error fault rest => .error fault rest
    | .ok a rest =>
      have := advances _ _ _ h
      match readWhile wanted reader advances rest with
      | .error fault rest => .error fault rest
      | .ok as rest => .ok (a :: as) rest
  else .ok [] stream
termination_by stream => stream.size

theorem steady_readWhile (wanted : TokenStream → Bool) (advances : Advances reader) :
    Steady (readWhile wanted reader advances) := by
  intro stream
  induction hn : stream.size using Nat.strongRecOn generalizing stream with
  | ind n ih =>
    subst hn
    intro as rest h
    rw [readWhile] at h
    split at h
    · split at h
      · cases h
      · next hs =>
        have hlt := advances _ _ _ hs
        split at h
        · cases h
        · next hr =>
          cases h
          exact Nat.le_of_lt (Nat.lt_of_le_of_lt (ih _ hlt _ rfl _ _ hr) hlt)
    · cases h
      exact Nat.le_refl _

end

namespace TokenReader

def current : TokenReader Token := return (← get).current

def advance : TokenReader Token := modifyGet fun stream => (stream.current, stream.advance)

def unexpected : TokenReader Fault := do
  let token ← current
  return ⟨.unexpected token.text, token.span.start⟩

/-- The fault of meeting the current token where `message` says what was wanted. -/
def misplaced (message : String) : TokenReader Fault := do
  let token ← current
  return ⟨.misplaced token.text message, token.span.start⟩

/-- Take a token of the given kind, or fail as given. -/
def expectOr (kind : TokenKind) (fault : Fault) : TokenReader Token := do
  if (← current).kind = kind then advance else throw fault

def expect (kind : TokenKind) : TokenReader Token := do
  expectOr kind (← unexpected)

/-- Take a token of the given kind where `message` says what is wanted. -/
def expectFor (message : String) (kind : TokenKind) : TokenReader Token := do
  expectOr kind (← misplaced message)

theorem steady_current : Steady current := Steady.get.bind fun _ => .pure _

theorem steady_advance : Steady advance := by
  intro stream a rest h
  cases h
  exact TokenStream.size_advance_le

theorem steady_unexpected : Steady unexpected := steady_current.bind fun _ => .pure _

theorem steady_misplaced (message : String) : Steady (misplaced message) :=
  steady_current.bind fun _ => .pure _

theorem advances_expectOr {kind : TokenKind} (h : kind ≠ .endOfInput) (fault : Fault) :
    Advances (expectOr kind fault) := by
  intro stream token rest hr
  obtain ⟨a, between, ha, hr⟩ := bind_eq_ok.mp hr
  cases ha
  split at hr
  · next hk =>
    cases hr
    exact TokenStream.size_advance_lt (hk ▸ h)
  · cases hr

theorem advances_expect {kind : TokenKind} (h : kind ≠ .endOfInput) : Advances (expect kind) :=
  steady_unexpected.bind_advances fun _ => advances_expectOr h _

theorem advances_expectFor (message : String) {kind : TokenKind} (h : kind ≠ .endOfInput) :
    Advances (expectFor message kind) :=
  (steady_misplaced message).bind_advances fun _ => advances_expectOr h _

end TokenReader

end Stylesheet
