import Stylesheet.Proofs.Relocation

/-! # Rules are independent

What a rule binds is forgotten at its end, so the children behind it are checked
and printed as if it were not there. Deleting a rule removes its diagnostics and
its block and readdresses the children behind it. Two neighbouring rules can
change places, and their blocks do.
-/

namespace Stylesheet

namespace TreePath

/-- Where a node is after child `index` of the root was deleted. -/
def lower (index : Nat) : TreePath → TreePath
  | [] => []
  | first :: rest => (if index < first then first - 1 else first) :: rest

theorem le_nil (q : TreePath) : TreePath.le [] q = true := by
  cases q <;> rfl

theorem le_cons_iff {i j : Nat} {p q : TreePath} :
    TreePath.le (i :: p) (j :: q) = true ↔ i < j ∨ i = j ∧ TreePath.le p q = true := by
  simp only [le, order]
  rcases Nat.lt_trichotomy i j with h | rfl | h
  · simp [Nat.compare_eq_lt.mpr h, h]
  · simp
  · simp [Nat.compare_eq_gt.mpr h, Nat.ne_of_gt h, Nat.le_of_lt h]

theorem le_trans (p q r : TreePath) (h : TreePath.le p q) (h' : TreePath.le q r) :
    TreePath.le p r := by
  induction p generalizing q r with
  | nil => exact le_nil r
  | cons i p ih =>
    cases q with
    | nil => cases h
    | cons j q =>
      cases r with
      | nil => cases h'
      | cons k r =>
        rw [le_cons_iff] at h h' ⊢
        rcases h with h | ⟨rfl, h⟩
        · rcases h' with h' | ⟨rfl, -⟩
          · exact .inl (Nat.lt_trans h h')
          · exact .inl h
        · rcases h' with h' | ⟨rfl, h'⟩
          · exact .inl h'
          · exact .inr ⟨rfl, ih q r h h'⟩

theorem le_total (p q : TreePath) : TreePath.le p q || TreePath.le q p := by
  rw [Bool.or_eq_true]
  induction p generalizing q with
  | nil => exact .inl (le_nil q)
  | cons i p ih =>
    cases q with
    | nil => exact .inr (le_nil _)
    | cons j q =>
      rw [le_cons_iff, le_cons_iff]
      rcases Nat.lt_trichotomy i j with h | rfl | h
      · exact .inl (.inl h)
      · exact (ih q).imp (fun h => .inr ⟨rfl, h⟩) fun h => .inr ⟨rfl, h⟩
      · exact .inr (.inl h)

theorem le_lower {index : Nat} {p q : TreePath} (hp : p.head? ≠ some index)
    (hq : q.head? ≠ some index) :
    TreePath.le (p.lower index) (q.lower index) = TreePath.le p q := by
  cases p with
  | nil => cases q <;> rfl
  | cons i p =>
    cases q with
    | nil => rfl
    | cons j q =>
      have hi : i ≠ index := fun h => hp (by rw [h]; rfl)
      have hj : j ≠ index := fun h => hq (by rw [h]; rfl)
      have hc : compare (if index < i then i - 1 else i) (if index < j then j - 1 else j) =
          compare i j := by
        rcases Nat.lt_trichotomy i j with h | rfl | h
        · rw [Nat.compare_eq_lt.mpr h, Nat.compare_eq_lt]
          split_ifs <;> omega
        · rw [Nat.compare_eq_eq.mpr rfl, Nat.compare_eq_eq.mpr rfl]
        · rw [Nat.compare_eq_gt.mpr h, Nat.compare_eq_gt]
          split_ifs <;> omega
      simp only [le, lower, order, hc]

end TreePath

namespace Diagnostic

/-- Diagnostics with those of child `index` of the root left out and the others
readdressed. -/
def without (index : Nat) (diagnostics : List Diagnostic) : List Diagnostic :=
  (diagnostics.filter (·.path.head? ≠ some index)).map fun diagnostic =>
    { diagnostic with path := diagnostic.path.lower index }

theorem sort_cons (first : Diagnostic) (later : List Diagnostic) :
    ∃ above below,
      above = (sort later).filter (fun d => !TreePath.le first.path d.path) ∧
      below = (sort later).filter (fun d => TreePath.le first.path d.path) ∧
      sort later = above ++ below ∧ sort (first :: later) = above ++ first :: below := by
  have htrans (a b c : Diagnostic) := TreePath.le_trans a.path b.path c.path
  have htotal (a b : Diagnostic) := TreePath.le_total a.path b.path
  obtain ⟨above, below, h, hl, ha⟩ := List.mergeSort_cons htrans htotal first later
  have hb : ∀ d ∈ below, TreePath.le first.path d.path := by
    have hs := List.pairwise_mergeSort htrans htotal (first :: later)
    rw [h] at hs
    exact (List.pairwise_cons.mp (List.pairwise_append.mp hs).2.1).1
  refine ⟨above, below, ?_, ?_, hl, h⟩
  · rw [sort, hl, List.filter_append, List.filter_eq_self.mpr ha, List.self_eq_append_right,
      List.filter_eq_nil_iff]
    intro d hd
    simp [hb d hd]
  · rw [sort, hl, List.filter_append, List.filter_eq_self.mpr hb, List.self_eq_append_left,
      List.filter_eq_nil_iff]
    intro d hd
    simpa using ha d hd

theorem sort_filter (p : Diagnostic → Bool) (reports : List Diagnostic) :
    sort (reports.filter p) = (sort reports).filter p := by
  induction reports with
  | nil => simp [sort]
  | cons first later ih =>
    obtain ⟨above, below, ha, hb, hl, h⟩ := sort_cons first later
    rw [h, List.filter_append]
    by_cases hp : p first
    · obtain ⟨above', below', ha', hb', -, h'⟩ := sort_cons first (later.filter p)
      rw [List.filter_cons_of_pos hp, List.filter_cons_of_pos hp, h', ha', hb', ih, ha, hb]
      simp only [List.filter_filter, Bool.and_comm]
    · rw [List.filter_cons_of_neg hp, List.filter_cons_of_neg hp, ih, hl, List.filter_append]

theorem without_sort (index : Nat) (reports : List Diagnostic) :
    without index (sort reports) = sort (without index reports) := by
  rw [without, ← sort_filter]
  apply List.map_mergeSort
  intro a ha b hb
  simp only [List.mem_filter, decide_eq_true_eq] at ha hb
  exact (TreePath.le_lower ha.2 hb.2).symm

theorem without_append (index : Nat) (xs ys : List Diagnostic) :
    without index (xs ++ ys) = without index xs ++ without index ys := by
  rw [without, List.filter_append, List.map_append, without, without]

theorem without_map_move_self (index : Nat) (reports : List Diagnostic) :
    without index (reports.map (.move [index] id)) = [] := by
  simp [without, move]

theorem without_map_move {index k : Nat} (h : k ≠ index) (reports : List Diagnostic) :
    without index (reports.map (.move [k] id)) =
      reports.map (.move [if index < k then k - 1 else k] id) := by
  simp [without, move, List.filter_map, Function.comp_def, h, TreePath.lower]

end Diagnostic

theorem childReports_root_child (scope : TypeScope) (index : Nat) (child : Node) :
    childReports scope (TreePath.root.child index) child =
      (childReports scope .root child).map (.move [index] id) := by
  have h := childReports_move scope [index] .root id child
  rwa [Node.relocate_id] at h

section Children

variable (scope : TypeScope)

theorem childrenReports_append (index : Nat) (xs ys : List Node) :
    childrenReports scope index (xs ++ ys) =
      childrenReports scope index xs ++
        childrenReports (xs.foldl TypeScope.behind scope) (index + xs.length) ys := by
  induction xs generalizing scope index with
  | nil => rfl
  | cons x xs ih =>
    rw [List.cons_append, childrenReports, ih, childrenReports, List.append_assoc,
      List.foldl_cons, List.length_cons, Nat.add_right_comm, Nat.add_assoc]

theorem without_childrenReports_of_le {index k : Nat} {children : List Node}
    (h : k + children.length ≤ index) :
    Diagnostic.without index (childrenReports scope k children) =
      childrenReports scope k children := by
  induction children generalizing scope k with
  | nil => rfl
  | cons child children ih =>
    rw [List.length_cons] at h
    rw [childrenReports, Diagnostic.without_append, ih _ (by omega), childReports_root_child,
      Diagnostic.without_map_move (by omega), if_neg (by omega)]

/-- Deleting a child readdresses the diagnostics of the children behind it. -/
theorem without_childrenReports_succ {index k : Nat} (h : index ≤ k) (children : List Node) :
    Diagnostic.without index (childrenReports scope (k + 1) children) =
      childrenReports scope k children := by
  induction children generalizing scope k with
  | nil => rfl
  | cons child children ih =>
    rw [childrenReports, Diagnostic.without_append, ih _ (by omega), childReports_root_child,
      Diagnostic.without_map_move (by omega), if_pos (by omega), Nat.add_sub_cancel,
      ← childReports_root_child, childrenReports]

end Children

theorem without_reports_rule (scope : TypeScope) (before after : List Node)
    (selectors : List Selector) (body : List Node) (span : Span) :
    Diagnostic.without before.length
        (childrenReports scope 0 (before ++ .rule selectors body span :: after)) =
      childrenReports scope 0 (before ++ after) := by
  rw [childrenReports_append, childrenReports_append, childrenReports, Nat.zero_add,
    Diagnostic.without_append, Diagnostic.without_append, childReports_root_child,
    Diagnostic.without_map_move_self, List.nil_append,
    without_childrenReports_of_le scope (by omega),
    without_childrenReports_succ _ (Nat.le_refl _)]
  rfl

/-! ## The text of a document -/

namespace Css

def textIn (env : Env Literal) (children : List Node) : String :=
  String.join (((Lexical.children env children).flatMap blocksOf).map Block.text)

/-- The block of a rule that stands behind other children of a document. -/
def blockBehind (before : List Node) (selectors : List Selector) (body : List Node) : Block :=
  ⟨selectors.map (·.text),
    (Lexical.body (before.foldl Env.behind Env.empty) body).filterMap printed?⟩

theorem textIn_rule (env : Env Literal) (selectors : List Selector) (body : List Node)
    (span : Span) (later : List Node) :
    textIn env (.rule selectors body span :: later) =
      Block.text ⟨selectors.map (·.text), (Lexical.body env body).filterMap printed?⟩ ++
        textIn env later := by
  rw [textIn, Lexical.children, List.flatMap_cons, List.map_append, String.join_append, blocksOf,
    textIn]
  simp

theorem textIn_append (env : Env Literal) (xs ys : List Node) :
    textIn env (xs ++ ys) = textIn env xs ++ textIn (xs.foldl Env.behind env) ys := by
  induction xs generalizing env with
  | nil => simp [textIn, Lexical.children]
  | cons x xs ih =>
    rw [List.cons_append, List.foldl_cons]
    cases x with
    | rule selectors body span =>
      rw [textIn_rule, textIn_rule, ih, String.append_assoc]
      rfl
    | _ => exact ih _

end Css

/-- A rule does not influence the rest of its document. Without it the same
diagnostics are left but its own, readdressed, and the same text but its block,
which stands behind the text of the children before it. Where a second rule
follows it, the two can change places and only their blocks do in the text. -/
theorem rule_independent (before after : List Node) (selectors : List Selector)
    (body : List Node) (span place : Span) :
    (∃ reports,
      check (.document (before ++ .rule selectors body span :: after) place) = .ok reports ∧
      check (.document (before ++ after) place) =
        .ok (Diagnostic.without before.length reports)) ∧
    ∃ above below,
      (produce (.document before place)).1 = .ok above ∧
      (produce (.document (before ++ after) place)).1 = .ok (above ++ below) ∧
      (produce (.document (before ++ .rule selectors body span :: after) place)).1 =
        .ok (above ++ (Css.blockBehind before selectors body).text ++ below) ∧
      ∀ selectors' body' span',
        (produce (.document (before ++ .rule selectors body span ::
          .rule selectors' body' span' :: after) place)).1 =
          .ok (above ++ ((Css.blockBehind before selectors body).text ++
            (Css.blockBehind before selectors' body').text) ++ below) ∧
        (produce (.document (before ++ .rule selectors' body' span' ::
          .rule selectors body span :: after) place)).1 =
          .ok (above ++ ((Css.blockBehind before selectors' body').text ++
            (Css.blockBehind before selectors body).text) ++ below) := by
  constructor
  · refine ⟨_, check_document .., ?_⟩
    rw [check_document, Diagnostic.without_sort, without_reports_rule]
  · have hp (children : List Node) : (produce (.document children place)).1 =
        .ok (Css.textIn Env.empty children) := produce_document children place
    refine ⟨Css.textIn Env.empty before, Css.textIn (before.foldl Env.behind Env.empty) after,
      hp before, ?_, ?_, ?_⟩
    · rw [hp, Css.textIn_append]
    · rw [hp, Css.textIn_append, Css.textIn_rule, String.append_assoc,
        Css.blockBehind]
    · intro selectors' body' span'
      simp only [hp, Css.textIn_append, Css.textIn_rule, String.append_assoc,
        Css.blockBehind, and_self]

end Stylesheet
