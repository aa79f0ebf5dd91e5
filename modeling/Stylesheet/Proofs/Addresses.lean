import Stylesheet.Proofs.Independence

/-! # Addresses in a tree

A path is followed from child to child, through nodes and expressions alike. The
walk through a tree lists all addresses in pre-order, and this is the order of
paths. Every diagnostic has the address and the span of a part of the checked
tree, and a check presents its diagnostics in the order of the walk.
-/

namespace Stylesheet

/-- What an address can lead to. -/
inductive Part where
  | node (node : Node)
  | expr (expr : Expr)

namespace Part

def span : Part → Span
  | node item => item.span
  | expr e => e.span

def children : Part → List Part
  | node (.document children _) => children.map node
  | node (.rule _ body _) => body.map node
  | node (.conditional condition body otherwise _) =>
    expr condition :: body.map node ++ otherwise.toList.map fun branch => node (.alternative branch)
  | node (.alternative branch) => branch.items.map node
  | node (.declaration _ value _) => [expr value]
  | node (.binding _ value _) => [expr value]
  | expr (.operation _ left right _) => [expr left, expr right]
  | expr _ => []

section Children

variable {condition : Expr} {body : List Node} {item : Node} {index : Nat} {span : Span}

theorem getElem?_map_node (h : body[index]? = some item) :
    (body.map node)[0 + index]? = some (node item) := by
  rw [Nat.zero_add, List.getElem?_map, h, Option.map_some]

theorem children_conditional_body {otherwise : Option (Block Node)} (h : body[index]? = some item) :
    (node (.conditional condition body otherwise span)).children[1 + index]? =
      some (node item) := by
  have hb : index < (body.map node).length := by
    rw [List.length_map]
    exact (List.getElem?_eq_some_iff.mp h).1
  rw [children, Nat.add_comm, List.cons_append, List.getElem?_cons_succ,
    List.getElem?_append_left hb, List.getElem?_map, h, Option.map_some]

theorem children_conditional_otherwise {branch : Block Node} :
    (node (.conditional condition body (some branch) span)).children[1 + body.length]? =
      some (node (.alternative branch)) := by
  have hb : (body.map node).length = body.length := List.length_map _
  rw [children, Nat.add_comm, List.cons_append, List.getElem?_cons_succ, ← hb,
    List.getElem?_append_right (Nat.le_refl _), Nat.sub_self]
  rfl

end Children

/-- The part that an address leads to. -/
def at? (part : Part) : TreePath → Option Part
  | [] => some part
  | index :: path => part.children[index]?.bind fun child => child.at? path

theorem at?_cons_eq_some_iff {part target : Part} {index : Nat} {path : TreePath} :
    part.at? (index :: path) = some target ↔
      ∃ child, part.children[index]? = some child ∧ child.at? path = some target :=
  Option.bind_eq_some_iff

theorem sizeOf_lt_of_mem_map {items : List Node} {child : Part} (h : child ∈ items.map node) :
    sizeOf child < 1 + sizeOf items := by
  obtain ⟨item, hm, rfl⟩ := List.mem_map.mp h
  have := List.sizeOf_lt_of_mem hm
  rw [node.sizeOf_spec]
  omega

theorem sizeOf_child_lt {part child : Part} (h : child ∈ part.children) :
    sizeOf child < sizeOf part := by
  cases part with
  | node item =>
    rw [node.sizeOf_spec]
    cases item with
    | document children span =>
      have := sizeOf_lt_of_mem_map h
      rw [Node.document.sizeOf_spec]
      omega
    | rule selectors body span =>
      have := sizeOf_lt_of_mem_map h
      rw [Node.rule.sizeOf_spec]
      omega
    | conditional condition body otherwise span =>
      rw [Node.conditional.sizeOf_spec]
      rcases List.mem_append.mp h with h | h
      · rcases List.mem_cons.mp h with rfl | h
        · rw [expr.sizeOf_spec]
          omega
        · have := sizeOf_lt_of_mem_map h
          omega
      · obtain ⟨branch, hb, rfl⟩ := List.mem_map.mp h
        obtain rfl := Option.mem_toList.mp hb
        rw [node.sizeOf_spec, Node.alternative.sizeOf_spec, Option.some.sizeOf_spec]
        omega
    | alternative branch =>
      obtain ⟨items, span⟩ := branch
      have : sizeOf child < 1 + sizeOf items := sizeOf_lt_of_mem_map h
      rw [Node.alternative.sizeOf_spec, Block.mk.sizeOf_spec]
      omega
    | declaration property value span =>
      obtain rfl := List.mem_singleton.mp h
      rw [expr.sizeOf_spec, Node.declaration.sizeOf_spec]
      omega
    | binding name value span =>
      obtain rfl := List.mem_singleton.mp h
      rw [expr.sizeOf_spec, Node.binding.sizeOf_spec]
      omega
  | expr e =>
    cases e with
    | operation operator left right span =>
      rw [expr.sizeOf_spec, Expr.operation.sizeOf_spec]
      rcases List.mem_pair.mp h with rfl | rfl <;> rw [expr.sizeOf_spec] <;> omega
    | _ => cases h

/-- The addresses in a part in pre-order: the part itself first, then all that is
below one child before all that is below the next. -/
def walk (part : Part) : List TreePath :=
  [] :: part.children.attach.zipIdx.flatMap fun (child, index) => child.1.walk.map (index :: ·)
termination_by sizeOf part
decreasing_by exact sizeOf_child_lt child.2

theorem walk_eq (part : Part) :
    part.walk =
      [] :: part.children.zipIdx.flatMap fun (child, index) => child.walk.map (index :: ·) := by
  rw [walk]
  congr 1
  conv_rhs => rw [← List.attach_map_subtype_val part.children, List.zipIdx_map, List.flatMap_map]
  rfl

theorem mem_walk_iff {part : Part} {path : TreePath} :
    path ∈ part.walk ↔ ∃ target, part.at? path = some target := by
  rw [walk_eq]
  induction path generalizing part with
  | nil => exact iff_of_true List.mem_cons_self ⟨part, rfl⟩
  | cons index path ih =>
    simp only [List.mem_cons, reduceCtorEq, false_or, List.mem_flatMap, List.mem_map,
      at?_cons_eq_some_iff]
    constructor
    · rintro ⟨⟨child, i⟩, hc, q, hq, he⟩
      obtain ⟨rfl, rfl⟩ := List.cons.inj he
      rw [walk_eq] at hq
      obtain ⟨target, ht⟩ := ih.mp hq
      exact ⟨target, child, List.mem_zipIdx_iff_getElem?.mp hc, ht⟩
    · rintro ⟨target, child, hc, ht⟩
      refine ⟨(child, index), List.mem_zipIdx_iff_getElem?.mpr hc, path, ?_, rfl⟩
      rw [walk_eq]
      exact ih.mpr ⟨target, ht⟩

theorem pairwise_snd_zipIdx {α : Type} (items : List α) :
    items.zipIdx.Pairwise fun a b => a.2 < b.2 := by
  have h : (items.zipIdx.map Prod.snd).Pairwise (· < ·) := by
    rw [List.zipIdx_map_snd]
    exact List.pairwise_lt_range'
  exact List.pairwise_map.mp h

theorem pairwise_walk (part : Part) : part.walk.Pairwise fun p q => TreePath.le q p = false := by
  induction part using walk.induct with
  | case1 part ih =>
    rw [walk_eq, List.pairwise_cons, List.pairwise_flatMap]
    refine ⟨fun path hp => ?_, fun ⟨child, index⟩ hc => ?_, (pairwise_snd_zipIdx _).imp ?_⟩
    · obtain ⟨⟨child, index⟩, -, hp⟩ := List.mem_flatMap.mp hp
      obtain ⟨q, -, rfl⟩ := List.mem_map.mp hp
      rfl
    · refine List.pairwise_map.mpr ((ih ⟨child, List.fst_mem_of_mem_zipIdx hc⟩).imp ?_)
      intro p q hpq
      simpa [TreePath.le, TreePath.order] using hpq
    · rintro ⟨child, i⟩ ⟨child', j⟩ hij p hp q hq
      obtain ⟨p, -, rfl⟩ := List.mem_map.mp hp
      obtain ⟨q, -, rfl⟩ := List.mem_map.mp hq
      rw [← Bool.not_eq_true, TreePath.le_cons_iff]
      omega

def position (part : Part) (path : TreePath) : Nat := part.walk.idxOf path

theorem position_le_of_le {part : Part} {p q : TreePath} (hp : p ∈ part.walk) (hq : q ∈ part.walk)
    (h : TreePath.le p q) : part.position p ≤ part.position q := by
  by_contra hlt
  have hl := List.pairwise_iff_getElem.mp part.pairwise_walk _ _ (List.idxOf_lt_length_of_mem hq)
    (List.idxOf_lt_length_of_mem hp) (Nat.lt_of_not_le hlt)
  rw [List.getElem_idxOf, List.getElem_idxOf, h] at hl
  cases hl

end Part

/-- A diagnostic is about something in a part that stands at an address: its path
goes on from there and leads to what has its span. -/
def Diagnostic.On (diagnostic : Diagnostic) (path : TreePath) (part : Part) : Prop :=
  ∃ rest target, diagnostic.path = path ++ rest ∧ part.at? rest = some target ∧
    target.span = diagnostic.span

namespace Diagnostic

variable {diagnostic : Diagnostic} {path : TreePath} {part child : Part}

theorem On.self (path : TreePath) (part : Part) (message : String) :
    On ⟨path, part.span, message⟩ path part :=
  ⟨[], part, (List.append_nil path).symm, rfl, rfl⟩

theorem On.of_child {index : Nat} (hc : part.children[index]? = some child)
    (h : diagnostic.On (path.child index) child) : diagnostic.On path part := by
  obtain ⟨rest, target, hp, ht, hs⟩ := h
  refine ⟨index :: rest, target, ?_, Part.at?_cons_eq_some_iff.mpr ⟨child, hc, ht⟩, hs⟩
  rw [hp, TreePath.child, List.append_assoc, List.singleton_append]

theorem sort_filter_path (reports : List Diagnostic) (path : TreePath) :
    (sort reports).filter (·.path = path) = reports.filter (·.path = path) := by
  rw [← sort_filter, sort]
  refine List.mergeSort_of_pairwise (List.pairwise_of_forall_mem_list fun a ha b hb => ?_)
  simp only [List.mem_filter, decide_eq_true_eq] at ha hb
  rw [ha.2, hb.2]
  simpa using TreePath.le_total path path

end Diagnostic

namespace Expr

variable {scope : TypeScope}

theorem referenceType_on {path : TreePath} {name : String} {span : Span} :
    ∀ diagnostic ∈ (referenceType scope path name span).2,
      diagnostic.On path (.expr (reference name span)) := by
  unfold referenceType
  split
  · simp
  · exact List.forall_mem_singleton.mpr (.self path (.expr (reference name span)) _)

theorem infer_on (e : Expr) (path : TreePath) :
    ∀ diagnostic ∈ (e.infer scope path).2, diagnostic.On path (.expr e) := by
  induction e generalizing path with
  | literal value span => simp [infer]
  | reference name span => exact referenceType_on
  | operation operator left right span ihl ihr =>
    have hl {diagnostic : Diagnostic} (h : diagnostic.On (path.child 0) (.expr left)) :
        diagnostic.On path (.expr (operation operator left right span)) := .of_child rfl h
    have hr {diagnostic : Diagnostic} (h : diagnostic.On (path.child 1) (.expr right)) :
        diagnostic.On path (.expr (operation operator left right span)) := .of_child rfl h
    have hlr : ∀ diagnostic ∈ (left.infer scope (path.child 0)).2 ++
        (right.infer scope (path.child 1)).2,
        diagnostic.On path (.expr (operation operator left right span)) :=
      List.forall_mem_append.mpr ⟨fun _ h => hl (ihl _ _ h), fun _ h => hr (ihr _ _ h)⟩
    simp only [infer]
    split_ifs
    · exact List.forall_mem_singleton.mpr (hl (.self _ (.expr left) _))
    · exact List.forall_mem_singleton.mpr (hr (.self _ (.expr right) _))
    · split
      · exact hlr
      · exact List.forall_mem_append.mpr ⟨hlr, List.forall_mem_singleton.mpr
          (.self path (.expr (operation operator left right span)) _)⟩

theorem inferCondition_on (condition : Expr) (path : TreePath) :
    ∀ diagnostic ∈ condition.inferCondition scope path, diagnostic.On path (.expr condition) := by
  have hr (message : String) :
      Diagnostic.On ⟨path, condition.span, message⟩ path (.expr condition) :=
    .self path (.expr condition) message
  cases condition with
  | literal value span =>
    simp only [inferCondition]
    split_ifs
    · simp
    · exact List.forall_mem_singleton.mpr (hr _)
  | reference name span =>
    simp only [inferCondition]
    split_ifs
    · exact referenceType_on
    · exact List.forall_mem_append.mpr ⟨referenceType_on, List.forall_mem_singleton.mpr (hr _)⟩
  | operation operator left right span => exact List.forall_mem_singleton.mpr (hr _)

end Expr

theorem declarationReports_on (scope : TypeScope) (path : TreePath) (property : String)
    (value : Expr) (span : Span) :
    ∀ diagnostic ∈ declarationReports scope path property value span,
      diagnostic.On path (.node (.declaration property value span)) := by
  refine List.forall_mem_append.mpr ⟨fun _ h => .of_child rfl (value.infer_on _ _ h), ?_⟩
  split
  · simp
  · intro diagnostic h
    obtain ⟨message, -, rfl⟩ := List.mem_map.mp h
    exact .self path (.node (.declaration property value span)) message

/-- The diagnostics of a block are about its items. The block may start at any
index of its node, since a condition comes before the body of a conditional. -/
theorem bodyReports_on (scope : TypeScope) (kind : BlockKind) (path : TreePath) (index : Nat)
    (items : List Node) : ∀ diagnostic ∈ bodyReports scope kind path index items,
      ∃ i item, items[i]? = some item ∧ diagnostic.On (path.child (index + i)) (.node item) := by
  cases items with
  | nil => simp [bodyReports]
  | cons item items =>
    rw [bodyReports, List.forall_mem_append]
    refine ⟨fun diagnostic h => ⟨0, item, rfl, ?_⟩, fun diagnostic h => ?_⟩
    · cases item with
      | declaration property value span =>
        unfold itemReports at h
        exact declarationReports_on scope _ property value span diagnostic h
      | binding name value span =>
        unfold itemReports at h
        exact .of_child rfl (value.infer_on _ _ h)
      | conditional condition body otherwise span =>
        unfold itemReports at h
        rcases List.mem_append.mp h with h | h
        · rcases List.mem_append.mp h with h | h
          · exact .of_child rfl (condition.inferCondition_on _ _ h)
          · obtain ⟨i, inner, hi, hd⟩ := bodyReports_on _ .conditional _ 1 body diagnostic h
            exact .of_child (Part.children_conditional_body hi) hd
        · cases otherwise with
          | none => cases h
          | some branch =>
            obtain ⟨branch, place⟩ := branch
            obtain ⟨i, inner, hi, hd⟩ := bodyReports_on _ .alternative _ 0 branch diagnostic h
            exact .of_child Part.children_conditional_otherwise
              (.of_child (Part.getElem?_map_node hi) hd)
      | alternative branch =>
        obtain ⟨branch, place⟩ := branch
        unfold itemReports at h
        split_ifs at h
        · obtain ⟨i, inner, hi, hd⟩ := bodyReports_on _ .alternative _ 0 branch diagnostic h
          exact .of_child (Part.getElem?_map_node hi) hd
        · obtain rfl := List.mem_singleton.mp h
          exact .self _ (.node (.alternative ⟨branch, place⟩)) _
      | rule selectors body span =>
        unfold itemReports at h
        obtain rfl := List.mem_singleton.mp h
        exact .self _ (.node (.rule selectors body span)) _
      | document children span =>
        unfold itemReports at h
        obtain rfl := List.mem_singleton.mp h
        exact .self _ (.node (.document children span)) _
    · obtain ⟨i, later, hi, hd⟩ := bodyReports_on _ kind path (index + 1) items diagnostic h
      exact ⟨i + 1, later, hi, by rwa [Nat.add_assoc, Nat.add_comm 1 i] at hd⟩

theorem childrenReports_on (scope : TypeScope) (index : Nat) (children : List Node) :
    ∀ diagnostic ∈ childrenReports scope index children, ∃ i child,
      children[i]? = some child ∧
        diagnostic.On (TreePath.root.child (index + i)) (.node child) := by
  induction children generalizing scope index with
  | nil => simp [childrenReports]
  | cons child children ih =>
    rw [childrenReports, List.forall_mem_append]
    refine ⟨fun diagnostic h => ⟨0, child, rfl, ?_⟩, fun diagnostic h => ?_⟩
    · cases child with
      | binding name value span => exact .of_child rfl (value.infer_on _ _ h)
      | rule selectors body span =>
        obtain ⟨i, item, hi, hd⟩ := bodyReports_on _ .rule _ 0 body diagnostic h
        exact .of_child (Part.getElem?_map_node hi) hd
      | _ =>
        obtain rfl := List.mem_singleton.mp h
        exact .self _ (.node _) _
    · obtain ⟨i, later, hi, hd⟩ := ih _ (index + 1) diagnostic h
      exact ⟨i + 1, later, hi, by rwa [Nat.add_assoc, Nat.add_comm 1 i] at hd⟩

/-- Each diagnostic of a document has the address and the span of a part of it. -/
theorem exists_part_of_mem_reports {children : List Node} {diagnostic : Diagnostic}
    (h : diagnostic ∈ childrenReports Scope.empty.push 0 children) (span : Span) :
    ∃ part, (Part.node (.document children span)).at? diagnostic.path = some part ∧
      part.span = diagnostic.span := by
  obtain ⟨i, child, hi, hd⟩ := childrenReports_on _ 0 children diagnostic h
  have hd : diagnostic.On .root (.node (.document children span)) :=
    .of_child (Part.getElem?_map_node hi) hd
  obtain ⟨path, part, hp, ha, hs⟩ := hd
  exact ⟨part, by rwa [hp], hs⟩

/-- The diagnostics of a document lead to the parts they are about, each with the
span of its part. They are those that the check reported, in the order in which a
walk through the document meets their parts. Diagnostics of the same part are in
the order of the reports. -/
theorem check_in_preorder (children : List Node) (span : Span) :
    ∃ reports diagnostics,
      CheckM.checkRoot (.document children span) ⟨.empty, []⟩ = .ok () ⟨.empty, reports⟩ ∧
      check (.document children span) = .ok diagnostics ∧
      (∀ diagnostic ∈ diagnostics, ∃ part,
        (Part.node (.document children span)).at? diagnostic.path = some part ∧
          part.span = diagnostic.span) ∧
      diagnostics.Perm reports ∧
      diagnostics.Pairwise (fun first second =>
        (Part.node (.document children span)).position first.path ≤
          (Part.node (.document children span)).position second.path) ∧
      ∀ path, diagnostics.filter (·.path = path) = reports.filter (·.path = path) := by
  have hperm := List.mergeSort_perm (childrenReports Scope.empty.push 0 children)
    fun a b => TreePath.le a.path b.path
  have hat : ∀ diagnostic ∈ Diagnostic.sort (childrenReports Scope.empty.push 0 children), ∃ part,
      (Part.node (.document children span)).at? diagnostic.path = some part ∧
        part.span = diagnostic.span :=
    fun diagnostic h => exists_part_of_mem_reports (hperm.mem_iff.mp h) span
  refine ⟨_, _, CheckM.checkRoot_document .., check_document .., hat, hperm, ?_,
    Diagnostic.sort_filter_path _⟩
  have hs := List.pairwise_mergeSort (fun a b c => TreePath.le_trans a.path b.path c.path)
    (fun a b => TreePath.le_total a.path b.path) (childrenReports Scope.empty.push 0 children)
  refine List.Pairwise.imp_of_mem (fun ha hb hle => ?_) hs
  obtain ⟨first, hfirst, -⟩ := hat _ ha
  obtain ⟨second, hsecond, -⟩ := hat _ hb
  exact Part.position_le_of_le (Part.mem_walk_iff.mpr ⟨first, hfirst⟩)
    (Part.mem_walk_iff.mpr ⟨second, hsecond⟩) hle

end Stylesheet
