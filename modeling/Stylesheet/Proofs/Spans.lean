import Stylesheet.Proofs.Cuts
import Stylesheet.Proofs.Relocation

/-! # The spans of statements

The span of a statement cuts out its text: the part of the source that it spans
is read as that statement alone, with positions counted from its start.
-/

namespace Stylesheet

open Text Derives

namespace Text

/-- The first `n` bytes of a text; nothing when that place is past the end or inside
a character. -/
def takeBytes? : Nat → List Char → Option (List Char)
  | 0, _ => some []
  | _ + 1, [] => none
  | n + 1, c :: cs =>
    if c.utf8Size ≤ n + 1 then (takeBytes? (n + 1 - c.utf8Size) cs).map (c :: ·) else none

def slice? (start stop : Nat) (cs : List Char) : Option (List Char) :=
  (takeBytes? stop cs).bind (dropBytes? start)

theorem takeBytes?_append (s t : List Char) : takeBytes? (byteLength s) (s ++ t) = some s := by
  induction s with
  | nil => cases t <;> rfl
  | cons c cs ih =>
    have hc := c.utf8Size_pos
    obtain ⟨n, hn⟩ : ∃ n, byteLength (c :: cs) = n + 1 :=
      Nat.exists_eq_add_one.mpr (by simp; omega)
    rw [List.cons_append, hn, takeBytes?, if_pos (by rw [← hn]; simp), ← hn, byteLength_cons,
      Nat.add_sub_cancel_left, ih]
    rfl

theorem slice?_append (s t u : List Char) :
    slice? (byteLength s) (byteLength (s ++ t)) (s ++ t ++ u) = some t := by
  rw [slice?, takeBytes?_append, Option.bind_some, dropBytes?_append]

end Text

namespace Node

mutual

/-- The statements of a tree at every depth: rules, conditionals, declarations and
bindings. -/
def statements : Node → List Node
  | document children _ => statementsOf children
  | rule selectors body span => rule selectors body span :: statementsOf body
  | conditional condition body none span =>
    conditional condition body none span :: statementsOf body
  | conditional condition body (some ⟨items, place⟩) span =>
    conditional condition body (some ⟨items, place⟩) span ::
      (statementsOf body ++ statementsOf items)
  | alternative ⟨items, _⟩ => statementsOf items
  | declaration property value span => [declaration property value span]
  | binding name value span => [binding name value span]

def statementsOf : List Node → List Node
  | [] => []
  | node :: nodes => node.statements ++ statementsOf nodes

end

end Node

/-! ## The tokens of a statement -/

/-- Among the tokens are those of a statement. They derive it, and it spans from the
first to the last of them. -/
def Derives.Holds (tokens : List Token) (node : Node) : Prop :=
  ∃ before first middle last after, tokens = before ++ (first :: middle ++ [last]) ++ after ∧
    Items (first :: middle ++ [last]) [node] ∧ node.span = ⟨first.span.start, last.span.stop⟩

namespace Derives

variable {tokens : List Token} {node : Node}

theorem Holds.first {first last : Token} {middle : List Token}
    (hi : Items (first :: middle ++ [last]) [node])
    (hs : node.span = ⟨first.span.start, last.span.stop⟩) (later : List Token) :
    Holds (first :: middle ++ last :: later) node :=
  ⟨[], first, middle, last, later, by simp, hi, hs⟩

theorem Holds.append (h : Holds tokens node) (front back : List Token) :
    Holds (front ++ tokens ++ back) node := by
  obtain ⟨before, first, middle, last, after, rfl, hi, hs⟩ := h
  exact ⟨front ++ before, first, middle, last, after ++ back, by simp, hi, hs⟩

theorem Items.holds {items : List Node} (h : Items tokens items) :
    ∀ node ∈ Node.statementsOf items, Holds tokens node := by
  induction h with
  | nil => simp [Node.statementsOf]
  | @binding name assign stop tokens later value items hn ha hv hs hl ih =>
    rw [Node.statementsOf, Node.statements, List.singleton_append, List.forall_mem_cons]
    constructor
    · exact .first (.binding hn ha hv hs .nil) rfl later
    · intro node hm
      simpa using (ih node hm).append (name :: assign :: tokens ++ [stop]) []
  | @declaration property colon stop tokens later value items hp hc hv hs hl ih =>
    rw [Node.statementsOf, Node.statements, List.singleton_append, List.forall_mem_cons]
    constructor
    · exact .first (.declaration hp hc hv hs .nil) rfl later
    · intro node hm
      simpa using (ih node hm).append (property :: colon :: tokens ++ [stop]) []
  | @rule first opening closing tokens inner later selectors body items hf hm ho hi hc hl ihi ihl =>
    rw [Node.statementsOf, Node.statements, List.cons_append, List.forall_mem_cons,
      List.forall_mem_append]
    refine ⟨.first (.rule hf hm ho hi hc .nil) rfl later, ?_, ?_⟩
    · intro node hn
      simpa using (ihi node hn).append (first :: tokens ++ [opening]) (closing :: later)
    · intro node hn
      simpa using (ihl node hn).append (first :: tokens ++ opening :: inner ++ [closing]) []
  | @conditional word left right opening closing tokens inner later condition body items hw hl hv hr
      ho hi hc hlater ihi ihl =>
    rw [Node.statementsOf, Node.statements, List.cons_append, List.forall_mem_cons,
      List.forall_mem_append]
    refine ⟨.first (.conditional hw hl hv hr ho hi hc .nil) rfl later, ?_, ?_⟩
    · intro node hn
      simpa using (ihi node hn).append (word :: left :: tokens ++ [right, opening])
        (closing :: later)
    · intro node hn
      simpa using (ihl node hn).append
        (word :: left :: tokens ++ right :: opening :: inner ++ [closing]) []
  | @alternative word left right opening closing otherwise opening' closing' tokens inner inner'
      later condition body body' items hw hl hv hr ho hi hc he ho' hi' hc' hlater ihi ihi' ihl =>
    rw [Node.statementsOf, Node.statements, List.cons_append, List.forall_mem_cons,
      List.forall_mem_append, List.forall_mem_append]
    refine ⟨.first (.alternative hw hl hv hr ho hi hc he ho' hi' hc' .nil) rfl later,
      ⟨?_, ?_⟩, ?_⟩
    · intro node hn
      simpa using (ihi node hn).append (word :: left :: tokens ++ [right, opening])
        (closing :: otherwise :: opening' :: inner' ++ closing' :: later)
    · intro node hn
      simpa using (ihi' node hn).append
        (word :: left :: tokens ++ right :: opening :: inner ++ [closing, otherwise, opening'])
        (closing' :: later)
    · intro node hn
      simpa using (ihl node hn).append (word :: left :: tokens ++ right :: opening :: inner ++
        closing :: otherwise :: opening' :: inner' ++ [closing']) []

theorem Items.relocate {items : List Node} (h : Items tokens items) (f : Position → Position) :
    Items (tokens.map (.relocate f)) (items.map (.relocate f)) := by
  let base : TokenStream := ⟨[], "EOF", .unknown⟩
  have hk : ∀ token ∈ tokens.map (Token.relocate f), token.kind ≠ .endOfInput := by
    intro token hm
    obtain ⟨token, ht, rfl⟩ := List.mem_map.mp hm
    exact h.kind_ne token ht
  have hr : readStatements .standard (base.prepend tokens) = .ok items base :=
    (readStatements_prepend_iff rfl h.kind_ne).mpr ⟨rfl, h⟩
  have hm := moves_readStatements f .standard (base.prepend tokens)
  have hp : (base.prepend tokens).relocate f =
      (base.relocate f).prepend (tokens.map (.relocate f)) := by
    simp [TokenStream.relocate, TokenStream.prepend, base]
  rw [hr, hp] at hm
  exact ((readStatements_prepend_iff rfl hk).mp hm).2

end Derives

/-! ## Cutting out a statement -/

/-- A position counted from another one in the same file. -/
def Position.since (origin position : Position) : Position :=
  ⟨position.offset - origin.offset, position.file⟩

namespace Cursor

def behind (bytes : Nat) (cursor : Cursor) : Cursor := ⟨cursor.file, bytes + cursor.offset⟩

theorem advance_behind (bytes : Nat) (cursor : Cursor) (length : Nat) :
    (cursor.behind bytes).advance length = (cursor.advance length).behind bytes := by
  rw [advance, behind, behind, advance, Nat.add_assoc]

theorem since_position (bytes : Nat) (cursor : Cursor) :
    Position.since ⟨UInt32.ofNat bytes, cursor.file⟩ (cursor.behind bytes).position =
      cursor.position := by
  rw [Position.since, position, position, behind, UInt32.ofNat_add, UInt32.add_comm,
    UInt32.add_sub_cancel]

theorem since_span (bytes : Nat) (cursor : Cursor) (length : Nat) :
    ((cursor.behind bytes).span length).relocate (.since ⟨UInt32.ofNat bytes, cursor.file⟩) =
      cursor.span length := by
  rw [Span.relocate, span, span, since_position, advance_behind,
    ← since_position bytes (cursor.advance length)]
  rfl

end Cursor

/-- A text is read the same wherever it stands. -/
theorem scan_since (bytes : Nat) (cursor : Cursor) (cs : List Char) :
    (scan cursor cs).tokens = (scan (cursor.behind bytes) cs).tokens.map
        (.relocate (.since ⟨UInt32.ofNat bytes, cursor.file⟩)) ∧
      (scan cursor cs).rest = (scan (cursor.behind bytes) cs).rest := by
  induction cursor, cs using scan.induct with
  | case1 cursor cs hn =>
    rw [scan_of_next?_none hn, scan_of_next?_none hn]
    exact ⟨rfl, rfl⟩
  | case2 cursor cs lexeme hn hlt ih =>
    obtain ⟨ht, hr⟩ := ih
    obtain ⟨kind?, text, rest⟩ := lexeme
    rw [scan_of_next? hn, scan_of_next? hn, Cursor.advance_behind]
    cases kind? with
    | none => exact ⟨ht, hr⟩
    | some kind =>
      have hs := Cursor.since_span bytes cursor (byteLength text)
      refine ⟨?_, hr⟩
      exact congrArg₂ List.cons (congrArg (Token.mk kind (String.ofList text)) hs.symm) ht

theorem stop_of_scan {cursor : Cursor} {cs : List Char} (h : (scan cursor cs).rest = []) :
    (scan cursor cs).stop = cursor.advance (byteLength cs) := by
  induction cursor, cs using scan.induct with
  | case1 cursor cs hn =>
    rw [scan_of_next?_none hn] at h ⊢
    obtain rfl : cs = [] := h
    rfl
  | case2 cursor cs lexeme hn hlt ih =>
    rw [scan_of_next? hn] at h ⊢
    obtain ⟨kind?, text, rest⟩ := lexeme
    obtain rfl := Lexeme.append_of_next? hn
    rw [byteLength_append, ← Cursor.advance_advance]
    exact ih h

/-- Consecutive tokens of a text are cut out by the span from the first to the last
of them, and are read from the cut alone. -/
theorem exists_slice {cursor : Cursor} {cs : List Char} {before middle after : List Token}
    {first last : Token}
    (h : (scan cursor cs).tokens = before ++ (first :: middle ++ [last]) ++ after) :
    ∃ front text rest, cs = front ++ text ++ rest ∧
      scan (cursor.advance (byteLength front)) text =
        ⟨first :: middle ++ [last], cursor.advance (byteLength (front ++ text)), []⟩ ∧
      first.span.start = (cursor.advance (byteLength front)).position ∧
      last.span.stop = (cursor.advance (byteLength (front ++ text))).position := by
  have hf : (scan cursor cs).tokens = before ++ first :: (middle ++ [last] ++ after) := by
    rw [h]
    simp
  obtain ⟨front, behind, rfl, hb, hs⟩ := exists_cutBefore hf
  have hl : (scan (cursor.advance (byteLength front)) behind).tokens =
      (first :: middle) ++ last :: after := by
    rw [hb]
    simp
  obtain ⟨text, rest, rfl, hc⟩ := exists_cutBehind hl
  refine ⟨front, text, rest, (List.append_assoc ..).symm, ?_, hs, ?_⟩
  · rw [hc.scan_eq, Cursor.advance_advance, byteLength_append]
  · rw [hc.stop_eq, Cursor.advance_advance, byteLength_append]

theorem holds_of_parse {file source : String} {tree node : Node}
    (hp : parse file source = .ok tree) (hn : node ∈ tree.statements) :
    Holds (scan (.start file) source.toList).tokens node := by
  cases ht : tokenize file source with
  | error fault =>
    rw [parse, ht] at hp
    cases hp
  | ok tokens =>
    rw [parse, ht] at hp
    have he := (tokenize_eq_ok_iff.mp ht).2
    generalize (scan (.start file) source.toList).tokens = words at he ⊢
    cases derives_of_parseTokens hp with
    | @closed before rest ending children hb hk _ hi =>
      have hbt : before <+: tokens := ⟨_, hb.symm⟩
      have hwt : words <+: tokens := ⟨_, he.symm⟩
      have hlen := congrArg List.length (hb.symm.trans he)
      simp only [List.length_append, List.length_cons, List.length_nil] at hlen
      obtain ⟨more, rfl⟩ := List.prefix_of_prefix_length_le hbt hwt (by omega)
      exact (hi.holds node hn).append [] more
    | unclosed hk _ _ =>
      subst he
      exact absurd rfl (hk (.ending _) (List.mem_append_right words (List.mem_singleton.mpr rfl)))
    | empty hb => simp [hb] at he

theorem parse_of_scan {file : String} {text : List Char} {node : Node}
    (hr : (scan (.start file) text).rest = [])
    (hi : Items (scan (.start file) text).tokens [node]) :
    parse file (String.ofList text) = .ok (.document [node]
      ⟨⟨0, file⟩, ((Cursor.start file).advance (byteLength text)).position⟩) := by
  have ht : tokenize file (String.ofList text) = .ok ((scan (.start file) text).tokens ++
      [.ending ((scan (.start file) text).stop.span 0)]) := by
    rw [tokenize_eq_ok_iff, String.toList_ofList]
    exact ⟨hr, rfl⟩
  rw [parse, ht, ← stop_of_scan hr]
  exact parseTokens_of_derives (.closed rfl hi.kind_ne rfl hi)

/-- The span of a statement at any depth cuts its text out of the source. That text
is read as a document with one child, the statement with positions counted from
its start. -/
theorem parse_slice_of_statement {file source : String} {tree node : Node}
    (hl : byteLength source.toList < UInt32.size) (hp : parse file source = .ok tree)
    (hn : node ∈ tree.statements) :
    ∃ text, slice? node.span.start.offset.toNat node.span.stop.offset.toNat source.toList =
        some text ∧
      parse file (String.ofList text) = .ok (.document [node.relocate (.since node.span.start)]
        ⟨⟨0, file⟩, .since node.span.start node.span.stop⟩) := by
  obtain ⟨before, first, middle, last, after, ht, hi, hspan⟩ := holds_of_parse hp hn
  obtain ⟨front, text, rest, hs, hscan, hfirst, hlast⟩ := exists_slice ht
  have hstart : node.span.start = ⟨UInt32.ofNat (byteLength front), file⟩ := by
    rw [hspan, hfirst]
    simp [Cursor.position, Cursor.advance, Cursor.start]
  have hstop : node.span.stop = ⟨UInt32.ofNat (byteLength (front ++ text)), file⟩ := by
    rw [hspan, hlast]
    simp [Cursor.position, Cursor.advance, Cursor.start]
  refine ⟨text, ?_, ?_⟩
  · rw [hs, byteLength_append] at hl
    have hbs : byteLength (front ++ text) < UInt32.size := Nat.lt_of_le_of_lt (by omega) hl
    have hbf : byteLength front < UInt32.size :=
      Nat.lt_of_le_of_lt (by rw [byteLength_append]; omega) hbs
    rw [hstart, hstop, UInt32.toNat_ofNat_of_lt' hbf, UInt32.toNat_ofNat_of_lt' hbs, hs,
      slice?_append]
  · have hc : (Cursor.start file).advance (byteLength front) =
        (Cursor.start file).behind (byteLength front) := by
      simp [Cursor.advance, Cursor.behind, Cursor.start]
    obtain ⟨htokens, hrest⟩ := scan_since (byteLength front) (.start file) text
    rw [← hc, hscan] at htokens hrest
    have hone : Items (scan (.start file) text).tokens
        [node.relocate (.since node.span.start)] := by
      rw [htokens, hstart]
      exact hi.relocate _
    have hend : Position.since node.span.start node.span.stop =
        ((Cursor.start file).advance (byteLength text)).position := by
      rw [hstart, hstop, ← Cursor.since_position (byteLength front)]
      simp [Cursor.advance, Cursor.behind, Cursor.start, Cursor.position]
    rw [hend]
    exact parse_of_scan hrest hone

theorem parse_slice_of_statement_else :
    ∃ source tree node,
      source = "/* \u00e9 */ p \x7b if [B] \x7b width: 2px; \x7d else \x7b X := 1; /* \u00fc */ \x7d \x7d" ∧
      byteLength source.toList < UInt32.size ∧ parse "a" source = .ok tree ∧
      node ∈ tree.statements ∧ node.noun = "conditional" ∧
      ∃ text, slice? node.span.start.offset.toNat node.span.stop.offset.toNat source.toList =
          some text ∧
        parse "a" (String.ofList text) = .ok (.document [node.relocate (.since node.span.start)]
          ⟨⟨0, "a"⟩, .since node.span.start node.span.stop⟩) := by
  let source := "/* \u00e9 */ p \x7b if [B] \x7b width: 2px; \x7d else \x7b X := 1; /* \u00fc */ \x7d \x7d"
  have hl : byteLength source.toList < UInt32.size := by decide +kernel
  have h : ∃ tree ∈ (parse "a" source).toOption, ∃ node ∈ tree.statements,
      node.noun = "conditional" := by
    decide +kernel
  obtain ⟨tree, hp, node, hn, hk⟩ := h
  have hp := mem_toOption.mp hp
  exact ⟨source, tree, node, rfl, hl, hp, hn, hk, parse_slice_of_statement hl hp hn⟩

end Stylesheet
