import CommentFree.Proofs.Sibling

/-!
# The place of the copy

A path is changed by its components, where a slash in front means nothing, and then seen from a base
directory, where a slash in front means everything.  Taking the last part off a text takes the
slashes before it off too.  So of a path from the root with nothing but a name after the slashes
nothing is left: the copy's path no longer begins at the root (`fromRoot_copyPath`), and the copy is
put in the base directory.  `copyPath_sameDirectory_iff` says that this is the only way for the copy
to get into another directory than the file's.

`hostSteps` is how the system's libraries list the steps of a text: a step `.` counts only in front
of a path that does not begin at the root.
-/

namespace CommentFree

namespace Path

/-- steps as the system's libraries list them, after the root or without it -/
def hostStepsOf (root : Bool) (steps : List Component) : List Component :=
  let others := steps.filter (· ≠ .current)
  if root = false ∧ steps.head? = some .current then .current :: others else others

def hostSteps (p : Path) : List Component := hostStepsOf p.fromRoot p.components

/-- the path that a base directory and a path make -/
def seenFrom (p : Path) (base : String) : Path := ⟨p.under base⟩

/-- two paths to entries of one directory: they begin at the same place and agree in all steps
before the last one -/
structure SameDirectory (p q : Path) : Prop where
  fromRoot : p.fromRoot = q.fromRoot
  steps : ∃ dir name other, p.hostSteps = dir ++ [.entry name] ∧ q.hostSteps = dir ++ [.entry other]

theorem hostStepsOf_append (root : Bool) (dir : List Component) (name : List Char) (k : Nat) :
    hostStepsOf root (dir ++ .entry name :: List.replicate k .current) =
      hostStepsOf root dir ++ [.entry name] := by
  have hfilter : (dir ++ Component.entry name :: List.replicate k .current).filter (· ≠ .current) =
      dir.filter (· ≠ .current) ++ [.entry name] := by simp
  have hhead : (dir ++ Component.entry name :: List.replicate k .current).head? = some .current ↔
      dir.head? = some .current := by
    cases dir with
    | nil => simp
    | cons c dir => simp
  unfold hostStepsOf
  dsimp only
  rw [hfilter]
  by_cases h : root = false ∧ dir.head? = some .current
  · rw [if_pos h, if_pos ⟨h.1, hhead.mpr h.2⟩, List.cons_append]
  · rw [if_neg h, if_neg fun h' => h ⟨h'.1, hhead.mp h'.2⟩]

theorem sameDirectory_iff {p q : Path} {dir dir' : List Component} {name other : List Char}
    {k : Nat} (hp : p.components = dir ++ .entry name :: List.replicate k .current)
    (hq : q.components = dir' ++ [.entry other]) :
    SameDirectory p q ↔ p.fromRoot = q.fromRoot ∧
      hostStepsOf p.fromRoot dir = hostStepsOf q.fromRoot dir' := by
  have hpsteps : p.hostSteps = hostStepsOf p.fromRoot dir ++ [.entry name] := by
    unfold hostSteps
    rw [hp, hostStepsOf_append]
  have hqsteps : q.hostSteps = hostStepsOf q.fromRoot dir' ++ [.entry other] := by
    unfold hostSteps
    rw [hq]
    exact hostStepsOf_append _ _ _ 0
  constructor
  · rintro ⟨hroot, front, name', other', hp', hq'⟩
    refine ⟨hroot, ?_⟩
    rw [hpsteps] at hp'
    rw [hqsteps] at hq'
    rw [(List.append_inj' hp' rfl).1, (List.append_inj' hq' rfl).1]
  · rintro ⟨hroot, hdir⟩
    exact ⟨hroot, _, name, other, hpsteps, by rw [hqsteps, hdir]⟩

/-! ## what is left of a text without its last part -/

theorem cutLast_suffix (rev : List Char) : (cutLast rev).2 <:+ rev := by
  have hother := (rev.dropWhile (· = '/')).dropWhile_suffix (· ≠ '/')
  have hslash := ((rev.dropWhile (· = '/')).dropWhile (· ≠ '/')).dropWhile_suffix (· = '/')
  exact hslash.trans (hother.trans (rev.dropWhile_suffix (· = '/')))

theorem parentRev_suffix (rev : List Char) : parentRev rev <:+ rev := by
  fun_induction parentRev rev with
  | case1 rev hdot ih => exact ih.trans (cutLast_suffix rev)
  | case2 rev hdot => exact cutLast_suffix rev

theorem head?_parentRev (rev : List Char) : (parentRev rev).head? ≠ some '/' := by
  fun_induction parentRev rev with
  | case1 rev hdot ih => exact ih
  | case2 rev hdot =>
    intro hhead
    obtain ⟨rest, hrest⟩ := List.head?_eq_some_iff.mp hhead
    have hstop := not_of_dropWhile_eq_cons hrest
    simp at hstop

theorem parentText_prefix (text : List Char) : parentText text <+: text := by
  unfold parentText
  have hrev := List.reverse_prefix.mpr (parentRev_suffix text.reverse)
  rwa [List.reverse_reverse] at hrev

theorem getLast?_parentText (text : List Char) : (parentText text).getLast? ≠ some '/' := by
  unfold parentText
  rw [List.getLast?_reverse]
  exact head?_parentRev text.reverse

theorem componentsOf_ne_nil {text : List Char} (hne : text ≠ [])
    (hlast : text.getLast? ≠ some '/') : componentsOf text ≠ [] := by
  rcases exists_front text with ⟨hslash, -⟩ | ⟨front, name, rfl, hslash, -⟩
  · rw [componentsOf_segment hne hslash]
    exact List.cons_ne_nil _ _
  · have hname : name ≠ [] := by
      rintro rfl
      exact hlast List.getLast?_concat
    rw [componentsOf_append_slash, componentsOf_segment hname hslash]
    simp

/-! ## the copy -/

section
variable {p : Path} {name : List Char} {suffix : String}

theorem folder_eq_parentText (hname : p.fileName? = some name) :
    p.folder = componentsOf (parentText p.text.toList) := by
  have hlast : lastEntry? (componentsOf p.text.toList.reverse.reverse) = some name := by
    rw [List.reverse_reverse]
    exact hname
  obtain ⟨k, hk⟩ := componentsOf_parentRev hlast
  rw [List.reverse_reverse] at hk
  exact folder_eq hk

theorem toList_copyPath (hname : p.fileName? = some name) :
    (p.copyPath suffix).text.toList =
      push (parentText p.text.toList) (suffixed name suffix.toList) := by
  unfold copyPath withFileName
  rw [hname]
  exact String.toList_ofList

/-- the copy's path begins at the root only if something stands between the root and the name -/
theorem fromRoot_copyPath (hname : p.fileName? = some name) (hsuffix : suffix ≠ "")
    (hslash : '/' ∉ suffix.toList) :
    (p.copyPath suffix).fromRoot = (p.fromRoot && decide (p.folder ≠ [])) := by
  obtain ⟨⟨k, hp⟩, -⟩ := components_copyPath hname hsuffix hslash
  have hentry : .entry name ∈ p.components := by
    rw [hp]
    exact List.mem_append_right _ List.mem_cons_self
  have hnone : '/' ∉ suffixed name suffix.toList := fun hmem =>
    (mem_of_mem_suffixed hmem).elim (name_of_mem_componentsOf hentry).2.1 hslash
  have hfolder := folder_eq_parentText hname
  unfold fromRoot
  rw [toList_copyPath hname]
  by_cases hnil : parentText p.text.toList = []
  · -- nothing is left of the text, and the name has no slash
    rw [hnil] at hfolder
    have hhead : (suffixed name suffix.toList).head? ≠ some '/' := fun h =>
      hnone (List.mem_of_head? h)
    rw [hnil, push_nil hnone, hfolder, componentsOf_nil, decide_eq_false hhead]
    simp
  · have hne := componentsOf_ne_nil hnil (getLast?_parentText _)
    obtain ⟨c, front, hfront⟩ := List.exists_cons_of_ne_nil hnil
    obtain ⟨back, hback⟩ := parentText_prefix p.text.toList
    have htext : p.text.toList = c :: (front ++ back) := by
      refine hback.symm.trans ?_
      rw [hfront, List.cons_append]
    rw [push_of_getLast? hnil (getLast?_parentText _) hnone, hfolder, decide_eq_true hne,
      Bool.and_true, hfront, htext]
    rfl

end

/-! ## base directories -/

theorem seenFrom_fromRoot {p : Path} (h : p.fromRoot = true) (base : String) :
    p.seenFrom base = p := by
  unfold seenFrom under
  rw [if_pos h]

theorem components_seenFrom {p : Path} (h : p.fromRoot = false) (base : String) :
    (p.seenFrom base).components = componentsOf base.toList ++ p.components := by
  unfold seenFrom under components
  rw [h, if_neg Bool.false_ne_true]
  by_cases hbase : base = "" ∨ base.toList.getLast? = some '/'
  · rw [if_pos hbase]
    dsimp only
    rw [String.toList_append]
    rcases hbase with rfl | hlast
    · rfl
    · obtain ⟨front, hfront⟩ := List.getLast?_eq_some_iff.mp hlast
      rw [hfront, List.append_assoc, List.singleton_append, componentsOf_append_slash,
        componentsOf_append_slash, componentsOf_nil, List.append_nil]
  · rw [if_neg hbase]
    dsimp only
    rw [String.toList_append, String.toList_append, List.append_assoc]
    exact componentsOf_append_slash _ _

theorem fromRoot_seenFrom {p : Path} (h : p.fromRoot = false) (base : String) :
    (p.seenFrom base).fromRoot = fromRoot ⟨base⟩ := by
  have hhead : ∀ more : String, base ≠ "" → fromRoot ⟨base ++ more⟩ = fromRoot ⟨base⟩ := by
    intro more hne
    have hne' : base.toList ≠ [] := by simpa using hne
    obtain ⟨c, cs, hcons⟩ := List.exists_cons_of_ne_nil hne'
    unfold fromRoot
    dsimp only
    rw [String.toList_append, hcons]
    rfl
  by_cases hempty : base = ""
  · subst hempty
    unfold seenFrom under
    rw [h, if_neg Bool.false_ne_true, if_pos (.inl rfl), String.empty_append]
    exact h
  · unfold seenFrom under
    rw [h, if_neg Bool.false_ne_true]
    by_cases hbase : base = "" ∨ base.toList.getLast? = some '/'
    · rw [if_pos hbase]
      exact hhead _ hempty
    · rw [if_neg hbase, String.append_assoc]
      exact hhead _ hempty

end Path

/-- **The copy is put beside the file**, unless the path has nothing but the name after the root.
Then it is put in the base directory, and is beside the file only if that is the root. -/
theorem copyPath_sameDirectory_iff (base : String) (p : Path) (suffix : String) (name : List Char)
    (hname : p.fileName? = some name) (hsuffix : suffix ≠ "") (hslash : '/' ∉ suffix.toList) :
    Path.SameDirectory (p.seenFrom base) ((p.copyPath suffix).seenFrom base) ↔
      (p.fromRoot = true → p.folder = [] →
        Path.fromRoot ⟨base⟩ = true ∧ Path.hostSteps ⟨base⟩ = []) := by
  obtain ⟨⟨k, hp⟩, hcopy⟩ := Path.components_copyPath hname hsuffix hslash
  have hroot := Path.fromRoot_copyPath hname hsuffix hslash
  cases hpath : p.fromRoot with
  | false =>
    have hroot' : (p.copyPath suffix).fromRoot = false := by rw [hroot, hpath, Bool.false_and]
    have hp' := Path.components_seenFrom hpath base
    have hcopy' := Path.components_seenFrom hroot' base
    rw [hp, ← List.append_assoc] at hp'
    rw [hcopy, ← List.append_assoc] at hcopy'
    rw [Path.sameDirectory_iff hp' hcopy', Path.fromRoot_seenFrom hpath,
      Path.fromRoot_seenFrom hroot']
    exact ⟨fun _ h => absurd h Bool.false_ne_true, fun _ => ⟨rfl, rfl⟩⟩
  | true =>
    rw [Path.seenFrom_fromRoot hpath]
    by_cases hfolder : p.folder = []
    · have hroot' : (p.copyPath suffix).fromRoot = false := by rw [hroot, hfolder]; simp
      have hcopy' := Path.components_seenFrom hroot' base
      rw [hcopy, ← List.append_assoc, hfolder, List.append_nil] at hcopy'
      rw [Path.sameDirectory_iff hp hcopy', Path.fromRoot_seenFrom hroot', hpath, hfolder]
      show true = _ ∧ [] = _ ↔ _
      rw [eq_comm (a := true), eq_comm (a := [])]
      exact ⟨fun h _ _ => h, fun h => h rfl rfl⟩
    · have hroot' : (p.copyPath suffix).fromRoot = true := by
        rw [hroot, hpath, decide_eq_true hfolder, Bool.and_true]
      rw [Path.seenFrom_fromRoot hroot', Path.sameDirectory_iff hp hcopy, hpath, hroot']
      exact ⟨fun _ _ h => absurd h hfolder, fun _ => ⟨rfl, rfl⟩⟩

/-- a path from the root, seen from a directory elsewhere -/
theorem copyPath_sameDirectory_deep :
    Path.fileName? ⟨"/d//a.c/."⟩ = some "a.c".toList ∧
    Path.SameDirectory (Path.seenFrom ⟨"/d//a.c/."⟩ "/work")
      ((Path.copyPath ⟨"/d//a.c/."⟩ "_1").seenFrom "/work") := by
  have hname : Path.fileName? ⟨"/d//a.c/."⟩ = some "a.c".toList := by decide
  refine ⟨hname, (copyPath_sameDirectory_iff "/work" _ _ _ hname (by decide) (by decide)).mpr ?_⟩
  intro _ hfolder
  exact absurd hfolder (by decide)

/-- the copy of a file in the root is put in the base directory -/
theorem copyPath_otherDirectory :
    ¬ ∀ (base : String) (p : Path) (suffix : String) (name : List Char),
      p.fileName? = some name → suffix ≠ "" → '/' ∉ suffix.toList →
      Path.SameDirectory (p.seenFrom base) ((p.copyPath suffix).seenFrom base) := by
  intro h
  obtain ⟨-, dir, name, other, hp, hcopy⟩ :=
    h "/work" ⟨"/a.c"⟩ "_1" "a.c".toList (by decide) (by decide) (by decide)
  have hcopyPath : Path.copyPath ⟨"/a.c"⟩ "_1" = ⟨"a_1.c"⟩ := by decide +kernel
  rw [hcopyPath] at hcopy
  have hplength := congrArg List.length hp
  have hclength := congrArg List.length hcopy
  rw [List.length_append] at hplength hclength
  have hone : (Path.hostSteps (Path.seenFrom ⟨"/a.c"⟩ "/work")).length = 1 := by decide
  have htwo : (Path.hostSteps (Path.seenFrom ⟨"a_1.c"⟩ "/work")).length = 2 := by decide
  rw [hone] at hplength
  rw [htwo] at hclength
  simp only [List.length_singleton] at hplength hclength
  omega

end CommentFree
