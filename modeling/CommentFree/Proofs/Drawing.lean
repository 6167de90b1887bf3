import CommentFree.Proofs.Chain
import Mathlib.Data.List.Forall2

/-!
# Failures drawn as trees

Below the kind of a failure stand its children, first the contexts and then the cause.  In front of
each child stands a branch, and in front of that three spaces for every cause it is under, so that
the tree grows to the right with each cause and no level is come back to.  `Failure.rows` is this
drawing line by line, without a walk over the failure; `toList_tree` says that the tree has these
lines.

From the lines the failure can be read again, level by level:

* `childRows_append_inj`   a level ends at its one corner, whatever its children look like;
* `children_inj`           its last child is the cause if it begins with `cause: `, which no context
                           is allowed to;
* `sameLevels_of_rowsFrom` so the levels follow, one after the other.
-/

namespace CommentFree.Failure

/-! ## rows -/

def children (f : Failure) : List String :=
  f.context ++ (f.cause?.map fun g => "cause: " ++ g.kind.text).toList

def tee (depth : Nat) (text : String) : List Char :=
  List.replicate (3 * depth) ' ' ++ "├─ ".toList ++ text.toList

def corner (depth : Nat) (text : String) : List Char :=
  List.replicate (3 * depth) ' ' ++ "└─ ".toList ++ text.toList

/-- children at a depth: a corner for the last one, tees for those before it -/
def childRows (depth : Nat) (children : List String) : List (List Char) :=
  children.dropLast.map (tee depth) ++ children.getLast?.toList.map (corner depth)

/-- the rows below the kind of a failure at a depth -/
def rowsFrom (depth : Nat) (f : Failure) : List (List Char) :=
  (f.chain.zipIdx depth).flatMap fun (e, d) => childRows d e.children

def rows (f : Failure) : List (List Char) := f.kind.text.toList :: f.rowsFrom 0

theorem childRows_singleton (depth : Nat) (c : String) :
    childRows depth [c] = [corner depth c] := rfl

theorem childRows_cons_cons (depth : Nat) (c c' : String) (cs : List String) :
    childRows depth (c :: c' :: cs) = tee depth c :: childRows depth (c' :: cs) := by
  simp [childRows]

theorem childRows_concat (depth : Nat) (cs : List String) (c : String) :
    childRows depth (cs ++ [c]) = cs.map (tee depth) ++ [corner depth c] := by
  simp [childRows]

theorem children_of_last {f : Failure} (h : f.cause? = none) : f.children = f.context := by
  simp [children, h]

theorem children_of_cause {f g : Failure} (h : f.cause? = some g) :
    f.children = f.context ++ ["cause: " ++ g.kind.text] := by
  simp [children, h]

theorem rowsFrom_of_last {f : Failure} (h : f.cause? = none) (depth : Nat) :
    f.rowsFrom depth = childRows depth f.children := by
  simp [rowsFrom, chain_of_last h]

theorem rowsFrom_of_cause {f g : Failure} (h : f.cause? = some g) (depth : Nat) :
    f.rowsFrom depth = childRows depth f.children ++ g.rowsFrom (depth + 1) := by
  simp [rowsFrom, chain_of_cause h]

/-! ## the tree has these rows -/

theorem toList_spaces (n : Nat) : ("".pushn ' ' n).toList = List.replicate n ' ' := by
  rw [String.pushn_eq_repeat_push]
  induction n with
  | zero => rfl
  | succ n ih => rw [Nat.repeat, String.toList_push, ih, List.replicate_succ']

theorem toList_branch (depth : Nat) (last : Bool) (text : String) :
    (branch (3 * depth) last text).toList =
      (if last then corner depth text else tee depth text) ++ ['\n'] := by
  cases last <;> simp [branch, corner, tee, toList_spaces]

/-- contexts that a cause follows -/
theorem toList_branches_more (depth : Nat) (cs : List String) :
    (branches (3 * depth) true cs).toList = (cs.map (tee depth)).flatMap (· ++ ['\n']) := by
  induction cs with
  | nil => rfl
  | cons c cs ih => simp [branches, toList_branch, ih]

theorem toList_branches_last (depth : Nat) (cs : List String) :
    (branches (3 * depth) false cs).toList = (childRows depth cs).flatMap (· ++ ['\n']) := by
  induction cs with
  | nil => rfl
  | cons c cs ih =>
    rw [branches, String.toList_append, toList_branch, ih]
    cases cs with
    | nil => rfl
    | cons c' cs => rw [childRows_cons_cons, List.flatMap_cons]; rfl

theorem toList_treeFrom (f : Failure) (depth : Nat) :
    (treeFrom (3 * depth) f.top f.causes).toList =
      (f.kind.text.toList :: f.rowsFrom depth).flatMap (· ++ ['\n']) := by
  induction f using chain_induction generalizing depth with
  | last f h =>
    rw [cause?_eq_none_iff.mp h, treeFrom, rowsFrom_of_last h, children_of_last h]
    simp [toList_branches_last, kind, context]
  | next f g h ih =>
    rw [cause?_eq_some_iff.mp h, treeFrom, rowsFrom_of_cause h, children_of_cause h,
      childRows_concat]
    have hrest := ih (depth + 1)
    rw [Nat.mul_succ] at hrest
    simp [toList_branches_more, toList_spaces, corner, hrest, kind, context]

theorem toList_tree (f : Failure) : f.tree.toList = f.rows.flatMap (· ++ ['\n']) :=
  toList_treeFrom f 0

/-! ## rows read back from the text -/

/-- texts of one line, and no context that looks like a cause -/
def Legible (f : Failure) : Prop :=
  ∀ e ∈ f.chain, '\n' ∉ e.kind.text.toList ∧
    ∀ c ∈ e.context, '\n' ∉ c.toList ∧ ¬ "cause: ".toList <+: c.toList

instance (f : Failure) : Decidable f.Legible :=
  inferInstanceAs (Decidable (∀ e ∈ f.chain, _))

theorem Legible.cause {f g : Failure} (h : f.Legible) (hcause : f.cause? = some g) :
    g.Legible := by
  intro e he
  apply h
  rw [chain_of_cause hcause]
  exact List.mem_cons_of_mem f he

theorem Legible.newline_notMem_children {f : Failure} (h : f.Legible) :
    ∀ c ∈ f.children, '\n' ∉ c.toList := by
  obtain ⟨-, hcontext⟩ := h f f.mem_chain_self
  intro c hc
  cases hcause : f.cause? with
  | none =>
    rw [children_of_last hcause] at hc
    exact (hcontext c hc).1
  | some g =>
    rw [children_of_cause hcause, List.mem_append, List.mem_singleton] at hc
    rcases hc with hc | rfl
    · exact (hcontext c hc).1
    · obtain ⟨hkind, -⟩ := h.cause hcause g g.mem_chain_self
      simp [hkind]

theorem newline_notMem_childRows (depth : Nat) {cs : List String}
    (h : ∀ c ∈ cs, '\n' ∉ c.toList) : ∀ row ∈ childRows depth cs, '\n' ∉ row := by
  intro row hrow
  simp only [childRows, List.mem_append, List.mem_map, Option.mem_toList] at hrow
  rcases hrow with ⟨c, hc, rfl⟩ | ⟨c, hc, rfl⟩
  · simp [tee, h c (List.dropLast_subset cs hc)]
  · simp [corner, h c (List.mem_of_getLast? hc)]

theorem Legible.newline_notMem_rowsFrom {f : Failure} (h : f.Legible) (depth : Nat) :
    ∀ row ∈ f.rowsFrom depth, '\n' ∉ row := by
  induction f using chain_induction generalizing depth with
  | last f hlast =>
    rw [rowsFrom_of_last hlast]
    exact newline_notMem_childRows depth h.newline_notMem_children
  | next f g hcause ih =>
    intro row hrow
    rw [rowsFrom_of_cause hcause, List.mem_append] at hrow
    rcases hrow with hrow | hrow
    · exact newline_notMem_childRows depth h.newline_notMem_children row hrow
    · exact ih (h.cause hcause) (depth + 1) row hrow

theorem splitOn_flatMap_feed {rows : List (List Char)} (h : ∀ row ∈ rows, '\n' ∉ row) :
    (rows.flatMap (· ++ ['\n'])).splitOn '\n' = rows ++ [[]] := by
  induction rows with
  | nil => rfl
  | cons row rows ih =>
    rw [List.forall_mem_cons] at h
    rw [List.flatMap_cons, List.append_assoc, List.singleton_append,
      List.splitOn_append_cons_self_of_not_mem h.1, ih h.2, List.cons_append]

theorem Legible.splitOn_tree {f : Failure} (h : f.Legible) :
    f.tree.toList.splitOn '\n' = f.rows ++ [[]] := by
  rw [toList_tree]
  apply splitOn_flatMap_feed
  intro row hrow
  rcases List.mem_cons.mp hrow with rfl | hrow
  · exact (h f f.mem_chain_self).1
  · exact h.newline_notMem_rowsFrom 0 row hrow

/-! ## levels read back from the rows -/

theorem tee_inj {depth : Nat} {c c' : String} (h : tee depth c = tee depth c') : c = c' :=
  String.toList_injective (List.append_cancel_left h)

theorem corner_inj {depth : Nat} {c c' : String} (h : corner depth c = corner depth c') : c = c' :=
  String.toList_injective (List.append_cancel_left h)

theorem tee_ne_corner (depth : Nat) (c c' : String) : tee depth c ≠ corner depth c' := by
  simp [tee, corner]

/-- a level ends at its corner, so what comes after it cannot be taken for it -/
theorem childRows_append_inj {depth : Nat} {c c' : String} {cs cs' : List String}
    {more more' : List (List Char)}
    (h : childRows depth (c :: cs) ++ more = childRows depth (c' :: cs') ++ more') :
    c :: cs = c' :: cs' ∧ more = more' := by
  induction cs generalizing c c' cs' with
  | nil =>
    cases cs' with
    | nil =>
      have hrow : corner depth c = corner depth c' := (List.cons.inj h).1
      exact ⟨by rw [corner_inj hrow], (List.cons.inj h).2⟩
    | cons b' cs' =>
      rw [childRows_cons_cons] at h
      exact absurd (List.cons.inj h).1.symm (tee_ne_corner depth c' c)
  | cons b cs ih =>
    rw [childRows_cons_cons] at h
    cases cs' with
    | nil => exact absurd (List.cons.inj h).1 (tee_ne_corner depth c c')
    | cons b' cs' =>
      rw [childRows_cons_cons] at h
      obtain ⟨hrow, hrest⟩ := List.cons.inj h
      obtain ⟨hcs, hmore⟩ := ih hrest
      exact ⟨by rw [tee_inj hrow, hcs], hmore⟩

theorem childRows_ne_nil (depth : Nat) (c : String) (cs : List String) :
    childRows depth (c :: cs) ≠ [] := by
  cases cs with
  | nil => simp [childRows_singleton]
  | cons c' cs => simp [childRows_cons_cons]

theorem rowsFrom_of_children_nil {f : Failure} (h : f.children = []) :
    f.cause? = none ∧ ∀ depth, f.rowsFrom depth = [] := by
  cases hcause : f.cause? with
  | none =>
    refine ⟨rfl, fun depth => ?_⟩
    rw [rowsFrom_of_last hcause, h]
    rfl
  | some g => simp [children_of_cause hcause] at h

/-- the rows below the children of a failure at a depth -/
def rowsBelow (depth : Nat) (f : Failure) : List (List Char) :=
  f.cause?.elim [] (rowsFrom (depth + 1))

theorem rowsFrom_eq (depth : Nat) (f : Failure) :
    f.rowsFrom depth = childRows depth f.children ++ f.rowsBelow depth := by
  unfold rowsBelow
  cases h : f.cause? with
  | none => rw [rowsFrom_of_last h, Option.elim_none, List.append_nil]
  | some g => rw [rowsFrom_of_cause h, Option.elim_some]

theorem children_of_rowsFrom {f g : Failure} {depth : Nat}
    (h : f.rowsFrom depth = g.rowsFrom depth) :
    f.children = g.children ∧ f.rowsBelow depth = g.rowsBelow depth := by
  rw [rowsFrom_eq, rowsFrom_eq] at h
  have hbelow {e : Failure} (he : e.children = []) : e.rowsBelow depth = [] := by
    rw [rowsBelow, (rowsFrom_of_children_nil he).1, Option.elim_none]
  cases hf : f.children with
  | nil =>
    rw [hf, hbelow hf] at h
    cases hg : g.children with
    | nil => exact ⟨rfl, by rw [hbelow hf, hbelow hg]⟩
    | cons c cs =>
      rw [hg] at h
      exact absurd (List.append_eq_nil_iff.mp h.symm).1 (childRows_ne_nil depth c cs)
  | cons c cs =>
    cases hg : g.children with
    | nil =>
      rw [hf, hg, hbelow hg] at h
      exact absurd (List.append_eq_nil_iff.mp h).1 (childRows_ne_nil depth c cs)
    | cons c' cs' =>
      rw [hf, hg] at h
      exact childRows_append_inj h

theorem children_inj {f g : Failure} (hf : f.Legible) (hg : g.Legible)
    (h : f.children = g.children) :
    f.context = g.context ∧
      f.cause?.map (fun e => e.kind.text) = g.cause?.map (fun e => e.kind.text) := by
  -- a last child of the one that is a cause would be a context of the other
  have hlast {e e' : Failure} (he : e.Legible) (k : String)
      (h : e.context = e'.context ++ ["cause: " ++ k]) : False := by
    have hmem : "cause: " ++ k ∈ e.context := by simp [h]
    apply ((he e e.mem_chain_self).2 _ hmem).2
    exact ⟨k.toList, String.toList_append.symm⟩
  cases hcause : f.cause? with
  | none =>
    rw [children_of_last hcause] at h
    cases hcause' : g.cause? with
    | none =>
      rw [children_of_last hcause'] at h
      exact ⟨h, rfl⟩
    | some g' =>
      rw [children_of_cause hcause'] at h
      exact (hlast hf _ h).elim
  | some f' =>
    rw [children_of_cause hcause] at h
    cases hcause' : g.cause? with
    | none =>
      rw [children_of_last hcause'] at h
      exact (hlast hg _ h.symm).elim
    | some g' =>
      rw [children_of_cause hcause'] at h
      obtain ⟨hcontext, hkind⟩ := List.append_inj' h rfl
      have hkind := (String.append_right_inj _).mp (List.singleton_inj.mp hkind)
      refine ⟨hcontext, ?_⟩
      rw [Option.map_some, Option.map_some, hkind]

/-- one level of a failure is that of another -/
structure SameLevel (f g : Failure) : Prop where
  kind : f.kind.text = g.kind.text
  context : f.context = g.context
  cause : f.cause?.isSome = g.cause?.isSome

theorem sameLevels_of_rowsFrom {f g : Failure} (hf : f.Legible) (hg : g.Legible)
    (hkind : f.kind.text = g.kind.text) {depth : Nat} (h : f.rowsFrom depth = g.rowsFrom depth) :
    List.Forall₂ SameLevel f.chain g.chain := by
  induction f using chain_induction generalizing g depth with
  | last f hlast =>
    obtain ⟨hchildren, -⟩ := children_of_rowsFrom h
    obtain ⟨hcontext, hcause⟩ := children_inj hf hg hchildren
    rw [hlast, Option.map_none] at hcause
    have hlast' : g.cause? = none := Option.map_eq_none_iff.mp hcause.symm
    rw [chain_of_last hlast, chain_of_last hlast']
    exact .cons ⟨hkind, hcontext, by rw [hlast, hlast']⟩ .nil
  | next f f' hnext ih =>
    obtain ⟨hchildren, hbelow⟩ := children_of_rowsFrom h
    obtain ⟨hcontext, hcause⟩ := children_inj hf hg hchildren
    rw [hnext, Option.map_some] at hcause
    obtain ⟨g', hnext', hkind'⟩ := Option.map_eq_some_iff.mp hcause.symm
    unfold rowsBelow at hbelow
    rw [hnext, hnext'] at hbelow
    rw [chain_of_cause hnext, chain_of_cause hnext']
    refine .cons ⟨hkind, hcontext, by rw [hnext, hnext']; rfl⟩ ?_
    exact ih (hf.cause hnext) (hg.cause hnext') hkind'.symm hbelow

/-- **The tree determines the failure.**  Its lines are those of the drawing: at every level the
last child has the corner and those before it tees, with three spaces for each cause above.  And
failures that are drawn alike are alike level by level, in what their kinds say, in their contexts
and in having a cause. -/
theorem tree_determines (f : Failure) :
    f.tree.toList = f.rows.flatMap (· ++ ['\n']) ∧
    (f.Legible → f.tree.toList.splitOn '\n' = f.rows ++ [[]]) ∧
    ∀ g : Failure, f.Legible → g.Legible → f.tree = g.tree →
      List.Forall₂ SameLevel f.chain g.chain := by
  refine ⟨toList_tree f, Legible.splitOn_tree, ?_⟩
  intro g hf hg htree
  have hrows : f.rows ++ [[]] = g.rows ++ [[]] := by
    rw [← hf.splitOn_tree, ← hg.splitOn_tree, htree]
  obtain ⟨hkind, hbelow⟩ := List.cons.inj (List.append_cancel_right hrows)
  exact sameLevels_of_rowsFrom hf hg (String.toList_injective hkind) hbelow

/-- contexts that look like branches, and one that is nearly a cause -/
def lookalike (inner : FailureKind) : Failure :=
  ⟨⟨.message "outer", ["├─ a", "   └─ "]⟩, [⟨inner, []⟩, ⟨.message "", ["cause:"]⟩]⟩

/-- two failures that are not the same and have one tree -/
theorem tree_determines_lookalikes :
    (lookalike (.config "x")).Legible ∧
    (lookalike (.message "Invalid configuration: x")).Legible ∧
    (lookalike (.config "x")).tree =
      "outer\n├─ ├─ a\n├─    └─ \n└─ cause: Invalid configuration: x\n" ++
      "   └─ cause: \n      └─ cause:\n" ∧
    List.Forall₂ SameLevel (lookalike (.config "x")).chain
      (lookalike (.message "Invalid configuration: x")).chain := by
  have hconfig : (lookalike (.config "x")).Legible := by decide +kernel
  have hmessage : (lookalike (.message "Invalid configuration: x")).Legible := by decide +kernel
  have htree : (lookalike (.config "x")).tree =
      (lookalike (.message "Invalid configuration: x")).tree := by decide +kernel
  obtain ⟨-, -, hsame⟩ := tree_determines (lookalike (.config "x"))
  exact ⟨hconfig, hmessage, by decide +kernel, hsame _ hconfig hmessage htree⟩

end CommentFree.Failure
