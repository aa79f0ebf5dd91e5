import Stylesheet.Compilation
import Stylesheet.Proofs.Soundness

/-! # What acceptance promises

An accepted document is evaluated and printed without loss exactly when no
expression on the course of its evaluation is stuck. What is printed has the
types that the properties take exactly when no declaration gets a value of
another type from a stale name. Neither follows from acceptance alone.
-/

namespace Stylesheet

/-- An event that tells of an expression without the value it needs. -/
def Event.isUnfolded : Event → Bool
  | unfoldedDeclaration _ => true
  | unfoldedBinding _ => true
  | undecidedCondition _ => true
  | _ => false

/-- Nothing got lost on the way to an evaluated tree and in print: its
declarations hold literals and are printed with them, and no event tells of a
declaration, a binding or a condition without a value. -/
def Lossless (evaluated : Node) (log : List Event) : Prop :=
  (∀ declaration ∈ evaluated.declarations, ∃ value ∈ declaration.2.literal?,
      (declaration.1, value) ∈ Css.printed evaluated) ∧
    (∀ event ∈ log, event.isUnfolded = false) ∧ (Css.render evaluated).2 = []

instance (evaluated : Node) (log : List Event) : Decidable (Lossless evaluated log) :=
  inferInstanceAs (Decidable (_ ∧ _ ∧ _))

namespace Visit

def Folds : Visit → Prop
  | declares context _ value _ => value.valueIn context.values ≠ none
  | binds context _ value => value.valueIn context.values ≠ none
  | decides context condition => ∃ b, condition.valueIn context.values = some (.boolean b)
  | drops _ => True

def Stuck : Visit → Prop
  | declares context _ value _ => value.Stuck context.values
  | binds context _ value => value.Stuck context.values
  | decides context condition => condition.Stuck context.values
  | drops _ => False

/-- What is met is a declaration that gets a value its property does not take from
a stale name. -/
def Misprints : Visit → Prop
  | declares context property value _ => context.taints value = true ∧
      ∃ v, value.valueIn context.values = some v ∧ ¬ Conforms property v
  | _ => False

variable {visit : Visit}

theorem Folds.not_stuck (h : visit.Folds) : ¬ visit.Stuck := by
  intro hs
  cases visit with
  | declares context property value span => exact h (Expr.Stuck.valueIn_eq_none hs)
  | binds context name value => exact h (Expr.Stuck.valueIn_eq_none hs)
  | decides context condition =>
    obtain ⟨b, hb⟩ := h
    cases hb.symm.trans (Expr.Stuck.valueIn_eq_none hs)
  | drops noun => exact hs

theorem folds_iff :
    visit.Folds ↔ ∀ event, visit.event? = some event → event.isUnfolded = false := by
  cases visit with
  | declares context property value span =>
    by_cases h : value.valueIn context.values = none <;> simp [Folds, event?, h, Event.isUnfolded]
  | binds context name value =>
    by_cases h : value.valueIn context.values = none <;> simp [Folds, event?, h, Event.isUnfolded]
  | decides context condition =>
    simp only [Folds, event?]
    split <;> simp_all [Event.isUnfolded]
  | drops noun => simp [Folds, event?, Event.isUnfolded]

theorem At.folds (h : visit.At Context.Tracks) (hn : ¬ visit.Stuck) : visit.Folds := by
  cases visit with
  | declares context property value span =>
    obtain ⟨types, hi, type, _, ht, _⟩ := h
    exact fun hv => hn ((hi.sound ht).2 hv)
  | binds context name value =>
    obtain ⟨types, hi, type, ht⟩ := h
    exact fun hv => hn ((hi.sound ht).2 hv)
  | decides context condition =>
    obtain ⟨types, hi, hc⟩ := h
    cases hc with
    | literal value span => exact ⟨value, rfl⟩
    | @reference name span ht =>
      obtain ⟨v, hv, hb⟩ := Option.map_eq_some_iff.mp ((hi name).trans ht)
      cases v with
      | boolean b => exact ⟨b, hv⟩
      | _ => cases hb
  | drops noun => trivial

theorem Folds.literal (h : visit.Folds) {declaration : String × Expr}
    (hd : visit.declaration? = some declaration) :
    ∃ v, declaration.2.literal? = some v ∧ visit.printed? = some (declaration.1, v) := by
  cases visit with
  | declares context property value span =>
    obtain ⟨v, hv⟩ := Option.ne_none_iff_exists'.mp h
    cases hd
    exact ⟨v, (Expr.literal?_foldedIn ..).trans hv, by rw [printed?, hv, Option.map_some]⟩
  | _ => cases hd

theorem Folds.skipped? (h : visit.Folds) : visit.skipped? = none := by
  cases visit with
  | declares context property value span => exact if_neg h
  | _ => rfl

theorem At.property {Inv : Context → Env ValueType → Prop} (h : visit.At Inv)
    {declaration : String × Literal} (hd : visit.printed? = some declaration) :
    (propertyTypes? declaration.1).isSome := by
  cases visit with
  | declares context property value span =>
    obtain ⟨_, _, _, allowed, _, ha, _⟩ := h
    obtain ⟨v, hv, rfl⟩ := Option.map_eq_some_iff.mp hd
    exact Option.isSome_of_mem ha
  | _ => cases hd

theorem Misprints.printed (h : visit.Misprints) :
    ∃ declaration ∈ visit.printed?, ¬ Conforms declaration.1 declaration.2 := by
  cases visit with
  | declares context property value span =>
    obtain ⟨_, v, hv, hc⟩ := h
    exact ⟨(property, v), by rw [printed?, hv]; rfl, hc⟩
  | _ => cases h

/-- Where values have the types of their names, declarations are printed with
types that their properties take. -/
theorem At.conforms (h : visit.At Context.Tracks) {declaration : String × Literal}
    (hd : visit.printed? = some declaration) : Conforms declaration.1 declaration.2 := by
  cases visit with
  | declares context property value span =>
    obtain ⟨types, hi, type, allowed, ht, ha, hm⟩ := h
    obtain ⟨v, hv, rfl⟩ := Option.map_eq_some_iff.mp hd
    exact ⟨allowed, ha, (hi.sound ht).1 v hv ▸ hm⟩
  | _ => cases hd

/-- The same holds where they have these types but for stale names, unless a
declaration refers to one. -/
theorem At.conforms_of_not_misprints (h : visit.At Context.Agrees) (hn : ¬ visit.Misprints)
    {declaration : String × Literal} (hd : visit.printed? = some declaration) :
    Conforms declaration.1 declaration.2 := by
  cases visit with
  | declares context property value span =>
    obtain ⟨types, hi, type, allowed, ht, ha, hm⟩ := h
    obtain ⟨v, hv, rfl⟩ := Option.map_eq_some_iff.mp hd
    by_cases hs : context.taints value = true
    · by_contra hc
      exact hn ⟨hs, v, hv, hc⟩
    · have hsound := hi.sound ht (eq_false_of_ne_true hs)
      exact ⟨allowed, ha, hsound.1 v hv ▸ hm⟩
  | _ => cases hd

end Visit

/-- What an evaluated tree holds, prints and logs is read off the course of its
evaluation. -/
structure ReadOff (root evaluated : Node) : Prop where
  evaluate_eq : evaluate root = (.ok evaluated, root.course.filterMap Visit.event?)
  declarations_eq : evaluated.declarations = root.course.filterMap Visit.declaration?
  render_eq : Css.render evaluated = (.ok (String.join ((Css.blocks evaluated).map Css.Block.text)),
    root.course.filterMap Visit.skipped?)
  printed_eq : Css.printed evaluated = root.course.filterMap Visit.printed?

theorem readOff_document (children : List Node) (span : Span) :
    ReadOff (.document children span) (.document (Lexical.children Env.empty children) span) where
  evaluate_eq := evaluate_document children span
  declarations_eq := by
    rw [Node.declarations]
    exact Lexical.declarationsOf_children .start children
  render_eq := Prod.ext (Css.render_document _ span) (Lexical.childEvents_children .start children)
  printed_eq := Lexical.printed_children .start children

theorem ReadOff.produce_eq {root evaluated : Node} (h : ReadOff root evaluated) :
    produce root = (.ok (String.join ((Css.blocks evaluated).map Css.Block.text)),
      root.course.filterMap Visit.event? ++ root.course.filterMap Visit.skipped?) := by
  rw [produce, h.evaluate_eq]
  simp only [h.render_eq]

theorem produce_document (children : List Node) (span : Span) :
    (produce (.document children span)).1 =
      .ok (String.join
        (((Lexical.children Env.empty children).flatMap Css.blocksOf).map Css.Block.text)) := by
  rw [(readOff_document children span).produce_eq]
  rfl

namespace Node.WellFormed

variable {root : Node}

theorem readOff (h : root.WellFormed) : ∃ evaluated, ReadOff root evaluated := by
  cases h with
  | @document children span => exact ⟨_, readOff_document children span⟩

/-- On the course of a well-formed document all expressions fold, or one is stuck. -/
theorem course_folds (h : root.WellFormed) (hn : ∀ visit ∈ root.course, ¬ visit.Stuck) :
    ∀ visit ∈ root.course, visit.Folds := by
  have hk : Kept root.course Context.Tracks := by
    -- A binding that is not stuck has a value of its type, so the types stay right.
    refine kept_tracks fun context types name value type hm hi ht => ?_
    have hat : (Visit.binds context name value).At Context.Tracks := ⟨types, hi, type, ht⟩
    exact hat.folds (hn _ hm)
  intro visit hm
  exact (h.course_at Context.tracks_start hk visit hm).folds (hn visit hm)

theorem course_conforms_iff (h : root.WellFormed) :
    (∀ declaration ∈ root.course.filterMap Visit.printed?, Conforms declaration.1 declaration.2) ↔
      ∀ visit ∈ root.course, ¬ visit.Misprints := by
  constructor
  · intro hc visit hv hm
    obtain ⟨declaration, hd, hn⟩ := hm.printed
    exact hn (hc declaration (List.mem_filterMap.mpr ⟨visit, hv, hd⟩))
  · intro hn declaration hm
    obtain ⟨visit, hv, hd⟩ := List.mem_filterMap.mp hm
    have hat := h.course_at Context.agrees_start (kept_agrees root.course) visit hv
    exact hat.conforms_of_not_misprints (hn visit hv) hd

theorem course_conforms (h : root.WellFormed)
    (hb : ∀ name, .unfoldedBinding name ∉ root.course.filterMap Visit.event?) :
    ∀ declaration ∈ root.course.filterMap Visit.printed?,
      Conforms declaration.1 declaration.2 := by
  have hk : Kept root.course Context.Tracks := by
    refine kept_tracks fun context types name value type hm _ _ hv => hb name ?_
    exact List.mem_filterMap.mpr ⟨_, hm, if_pos hv⟩
  intro declaration hm
  obtain ⟨visit, hv, hd⟩ := List.mem_filterMap.mp hm
  exact (h.course_at Context.tracks_start hk visit hv).conforms hd

end Node.WellFormed

theorem mem_toOption {ε α : Type} {result : Except ε α} {a : α} :
    a ∈ result.toOption ↔ result = .ok a := by
  cases result <;> simp [Except.toOption]

theorem fst_parseLogged (file source : String) :
    (parseLogged file source).1 = parse file source := by
  unfold parseLogged parse
  cases tokenize file source <;> rfl

section Compile

variable {file source : String} {root : Node}

theorem compile_of_accepted (hp : parse file source = .ok root) (hc : check root = .ok []) :
    ∃ count, compile file source =
      ((produce root).1.mapError .faulty, .tokenized count :: .checked 0 :: (produce root).2) := by
  rw [← fst_parseLogged] at hp
  unfold parseLogged at hp
  cases ht : tokenize file source with
  | error fault => simp [ht] at hp
  | ok tokens =>
    simp only [ht] at hp
    exact ⟨tokens.length, by simp [compile, parseLogged, ht, hp, checkLogged, hc]⟩

theorem accepted_of_compile {css : String} (h : (compile file source).1 = .ok css) :
    ∃ root, parse file source = .ok root ∧ check root = .ok [] := by
  rw [← fst_parseLogged]
  unfold compile checkLogged at h
  match hp : parseLogged file source with
  | (.error fault, log) => simp [hp] at h
  | (.ok root, log) =>
    refine ⟨root, rfl, ?_⟩
    match hc : check root with
    | .error fault => simp [hp, hc] at h
    | .ok [] => rfl
    | .ok (problem :: problems) => simp [hp, hc] at h

/-- An accepted document is evaluated and printed. Nothing gets lost exactly when
no expression that is met is stuck. -/
theorem accepted_lossless_iff (hp : parse file source = .ok root) (hc : check root = .ok []) :
    ∃ evaluated log, evaluate root = (.ok evaluated, log) ∧
      (compile file source).1 = .ok (String.join ((Css.blocks evaluated).map Css.Block.text)) ∧
      (Lossless evaluated log ↔ ∀ visit ∈ root.course, ¬ visit.Stuck) := by
  have hw := wellFormed_of_check hc
  obtain ⟨count, hcompile⟩ := compile_of_accepted hp hc
  obtain ⟨evaluated, hr⟩ := hw.readOff
  refine ⟨evaluated, _, hr.evaluate_eq, by rw [hcompile, hr.produce_eq]; rfl, ?_⟩
  rw [Lossless, hr.declarations_eq, hr.render_eq, hr.printed_eq]
  constructor
  · rintro ⟨-, hl, -⟩ visit hm
    refine (Visit.folds_iff.mpr fun event he => ?_).not_stuck
    exact hl event (List.mem_filterMap.mpr ⟨visit, hm, he⟩)
  · intro hn
    have hf := hw.course_folds hn
    refine ⟨fun declaration hm => ?_, fun event hm => ?_, ?_⟩
    · obtain ⟨visit, hv, hd⟩ := List.mem_filterMap.mp hm
      obtain ⟨v, hl, hprint⟩ := (hf visit hv).literal hd
      exact ⟨v, hl, List.mem_filterMap.mpr ⟨visit, hv, hprint⟩⟩
    · obtain ⟨visit, hv, he⟩ := List.mem_filterMap.mp hm
      exact Visit.folds_iff.mp (hf visit hv) event he
    · exact List.filterMap_eq_nil_iff.mpr fun visit hv => (hf visit hv).skipped?

end Compile

theorem accepted_lossless_iff_shadowed :
    ∃ root evaluated log,
      parse "test.icss" "W := 10px; p \x7b W := W + 5px; width: 2 * W; \x7d" = .ok root ∧
      check root = .ok [] ∧ evaluate root = (.ok evaluated, log) ∧ Lossless evaluated log ∧
      ∀ visit ∈ root.course, ¬ visit.Stuck := by
  obtain ⟨root, hp, hc, other, ho, hl⟩ :
      ∃ root ∈ (parse "test.icss"
          "W := 10px; p \x7b W := W + 5px; width: 2 * W; \x7d").toOption,
        [] ∈ (check root).toOption ∧ ∃ evaluated ∈ (evaluate root).1.toOption,
          Lossless evaluated (evaluate root).2 := by decide +kernel
  rw [mem_toOption] at hp hc ho
  obtain ⟨evaluated, log, he, -, hi⟩ := accepted_lossless_iff hp hc
  rw [he] at ho hl
  cases ho
  exact ⟨root, other, log, hp, hc, he, hl, hi.mp hl⟩

/-- A sum of colors is accepted, although it has no value: a declaration of it is
not printed, and a binding to it is left out. -/
theorem accepted_not_lossless :
    (∃ root ∈ (parse "test.icss" "C := #ff0000; p \x7b color: C + C; \x7d").toOption,
      [] ∈ (check root).toOption ∧ ∃ evaluated ∈ (evaluate root).1.toOption,
        (∃ declaration ∈ evaluated.declarations, declaration.2.literal? = none) ∧
        ¬ Lossless evaluated (evaluate root).2) ∧
      ∃ root ∈ (parse "test.icss"
          "C := #ff0000; p \x7b X := C + C; width: 2 * 3px; \x7d").toOption,
        [] ∈ (check root).toOption ∧ ∃ evaluated ∈ (evaluate root).1.toOption,
          .unfoldedBinding "X" ∈ (evaluate root).2 ∧ ¬ Lossless evaluated (evaluate root).2 := by
  decide +kernel

/-- The style sheet of a source is that of its evaluated document, and each
declaration in it has a known property. Each has a type that its property takes
exactly when none gets another one from a stale name, and so if every binding has
a value. -/
theorem printed_conforms_iff {file source css : String} {log : List Event}
    (h : compile file source = (.ok css, log)) :
    ∃ root evaluated, parse file source = .ok root ∧ (evaluate root).1 = .ok evaluated ∧
      css = String.join ((Css.blocks evaluated).map Css.Block.text) ∧
      (∀ declaration ∈ Css.printed evaluated, (propertyTypes? declaration.1).isSome) ∧
      ((∀ declaration ∈ Css.printed evaluated, Conforms declaration.1 declaration.2) ↔
        ∀ visit ∈ root.course, ¬ visit.Misprints) ∧
      ((∀ name, .unfoldedBinding name ∉ log) →
        ∀ declaration ∈ Css.printed evaluated, Conforms declaration.1 declaration.2) := by
  obtain ⟨root, hp, hc⟩ := accepted_of_compile (congrArg Prod.fst h)
  have hw := wellFormed_of_check hc
  obtain ⟨count, hcompile⟩ := compile_of_accepted hp hc
  obtain ⟨evaluated, hr⟩ := hw.readOff
  rw [hcompile, hr.produce_eq] at h
  obtain ⟨hcss, hlog⟩ := Prod.mk.inj h
  refine ⟨root, evaluated, hp, by rw [hr.evaluate_eq], (Except.ok.inj hcss).symm, ?_, ?_, ?_⟩
  · intro declaration hm
    rw [hr.printed_eq] at hm
    obtain ⟨visit, hv, hd⟩ := List.mem_filterMap.mp hm
    exact (hw.course_at Context.agrees_start (kept_agrees root.course) visit hv).property hd
  · rw [hr.printed_eq]
    exact hw.course_conforms_iff
  · intro hn
    rw [hr.printed_eq]
    refine hw.course_conforms fun name hm => hn name ?_
    rw [← hlog]
    exact List.mem_cons_of_mem _ (List.mem_cons_of_mem _ (List.mem_append_left _ hm))

theorem printed_conforms_iff_branch :
    ∃ css log root evaluated,
      compile "test.icss"
        "W := 10px; p \x7b if [TRUE] \x7b W := #ff0000; color: W; \x7d width: W; \x7d" =
        (.ok css, log) ∧
      parse "test.icss"
        "W := 10px; p \x7b if [TRUE] \x7b W := #ff0000; color: W; \x7d width: W; \x7d" = .ok root ∧
      (evaluate root).1 = .ok evaluated ∧
      css = String.join ((Css.blocks evaluated).map Css.Block.text) ∧
      ∀ declaration ∈ Css.printed evaluated, Conforms declaration.1 declaration.2 := by
  have h : compile "test.icss"
      "W := 10px; p \x7b if [TRUE] \x7b W := #ff0000; color: W; \x7d width: W; \x7d" =
      (.ok "p \x7b\n  color: #ff0000;\n  width: 10px;\n\x7d\n\n", [.tokenized 26, .checked 0]) :=
    Prod.ext (mem_toOption.mp (by decide +kernel)) (by decide +kernel)
  obtain ⟨root, evaluated, hp, he, hc, -, -, hf⟩ := printed_conforms_iff h
  exact ⟨_, _, root, evaluated, h, hp, he, hc, hf (by simp)⟩

/-- A color is printed as the length that an outer binding of the same name has,
since the inner binding has no value. -/
theorem printed_not_conforms :
    "p \x7b\n  color: 10px;\n\x7d\n\n" ∈ (compile "test.icss"
        "W := 10px; C := #ff0000; p \x7b W := C + C; color: W; \x7d").1.toOption ∧
      ∃ root ∈ (parse "test.icss"
          "W := 10px; C := #ff0000; p \x7b W := C + C; color: W; \x7d").toOption,
        ∃ evaluated ∈ (evaluate root).1.toOption,
          ∃ declaration ∈ Css.printed evaluated, ¬ Conforms declaration.1 declaration.2 := by
  decide +kernel

end Stylesheet
