import CommentFree.Language
import CommentFree.Proofs.Plain

/-!
# The name of the copy

A suffix without slashes stays in the name, so the copy's components are those before the file name
and one name more (`components_copyPath`).  Which name that is, is said by `Inserted` in terms of
the last dot, apart from how a name is cut:

* `inserted_suffixed`                the name of the copy is the name with the suffix in it;
* `Inserted.unique`                  no two names become one.  Where the suffix has dots of its own
                                     the two ways to put it in could meet; they do not, because a
                                     dot more in the one name is a dot less in the other;
* `extension?_copyPath`              an extension is kept, and with it the language.
-/

namespace CommentFree

namespace Path

/-! ## the last dot -/

theorem splitExtension?_append {stem ext : List Char} (hstem : stem ≠ []) (hext : '.' ∉ ext) :
    splitExtension? (stem ++ '.' :: ext) = some (stem, ext) := by
  have hback : ∀ c ∈ ext.reverse, decide (c ≠ '.') = true := by
    intro c hc
    have hother : c ≠ '.' := fun h => hext (h ▸ List.mem_reverse.mp hc)
    exact decide_eq_true hother
  have hrev : (stem ++ '.' :: ext).reverse = ext.reverse ++ '.' :: stem.reverse := by simp
  obtain ⟨c, cs, hcons⟩ := List.exists_cons_of_ne_nil (List.reverse_ne_nil_iff.mpr hstem)
  unfold splitExtension?
  rw [hrev, List.dropWhile_append_of_pos hback, List.takeWhile_append_of_pos hback,
    List.dropWhile_cons_of_neg (by simp), List.takeWhile_cons_of_neg (by simp), hcons]
  show some ((c :: cs).reverse, (ext.reverse ++ []).reverse) = _
  rw [← hcons, List.append_nil, List.reverse_reverse, List.reverse_reverse]

theorem dot_notMem_of_splitExtension? {name stem ext : List Char}
    (h : splitExtension? name = some (stem, ext)) : '.' ∉ ext := by
  unfold splitExtension? at h
  split at h
  · obtain ⟨-, rfl⟩ := Prod.mk.inj (Option.some.inj h)
    intro hmem
    have hother := List.mem_takeWhile_imp (List.mem_reverse.mp hmem)
    simp at hother
  · exact nomatch h

/-- a name that is not cut has no dot behind its first character -/
theorem dot_notMem_tail {name : List Char} (h : splitExtension? name = none) : '.' ∉ name.tail := by
  intro hmem
  obtain ⟨back, front, hrev, hback⟩ := List.eq_append_cons_of_mem (List.mem_reverse.mpr hmem)
  have htail : name.tail = front.reverse ++ '.' :: back.reverse := by
    rw [← List.reverse_reverse name.tail, hrev]
    simp
  cases name with
  | nil => exact nomatch hmem
  | cons c name =>
    have hback' : '.' ∉ back.reverse := by rwa [List.mem_reverse]
    have hname : c :: name = (c :: front.reverse) ++ '.' :: back.reverse :=
      congrArg (c :: ·) htail
    rw [hname, splitExtension?_append (List.cons_ne_nil _ _) hback'] at h
    exact nomatch h

/-! ## a suffix in a name -/

/-- `new` is `name` with a suffix before its last dot, or at its end where there is no dot but for a
first character -/
inductive Inserted (suffix : List Char) : (name new : List Char) → Prop
  | beforeDot {stem ext : List Char} (hstem : stem ≠ []) (hext : '.' ∉ ext) :
      Inserted suffix (stem ++ '.' :: ext) (stem ++ suffix ++ '.' :: ext)
  | atEnd {name : List Char} (h : '.' ∉ name.tail) : Inserted suffix name (name ++ suffix)

theorem inserted_suffixed (name suffix : List Char) :
    Inserted suffix name (suffixed name suffix) := by
  unfold suffixed
  cases hsplit : splitExtension? name with
  | none => exact .atEnd (dot_notMem_tail hsplit)
  | some halves =>
    obtain ⟨stem, ext⟩ := halves
    obtain ⟨rfl, hstem⟩ := eq_of_splitExtension? hsplit
    exact .beforeDot hstem (dot_notMem_of_splitExtension? hsplit)

/-- with the suffix before a last dot there is a dot too many for a name that had none -/
theorem not_meets {stem ext name suffix : List Char} (hstem : stem ≠ []) (hname : '.' ∉ name.tail) :
    stem ++ suffix ++ '.' :: ext ≠ name ++ suffix := by
  intro h
  have hlength := congrArg List.length h
  have hcount := congrArg (List.count '.') h
  simp only [List.length_append, List.length_cons, List.count_append, List.count_cons_self]
    at hlength hcount
  obtain ⟨c, stem, rfl⟩ := List.exists_cons_of_ne_nil hstem
  -- both begin with the same character, and only that can be a dot of the name
  cases name with
  | nil =>
    rw [List.length_nil] at hlength
    omega
  | cons c' name =>
    obtain rfl : c = c' := (List.cons.inj h).1
    rw [List.tail_cons] at hname
    have hnone : List.count '.' name = 0 := List.count_eq_zero.mpr hname
    rw [List.count_cons, List.count_cons, hnone] at hcount
    omega

theorem Inserted.unique {suffix name name' new : List Char} (h : Inserted suffix name new)
    (h' : Inserted suffix name' new) : name = name' := by
  generalize hnew : new = new' at h'
  cases h with
  | @beforeDot stem ext hstem hext =>
    cases h' with
    | @beforeDot stem' ext' hstem' hext' =>
      have hcut := List.append_ne_nil_of_left_ne_nil hstem suffix
      have hcut' := List.append_ne_nil_of_left_ne_nil hstem' suffix
      have hsplit := congrArg splitExtension? hnew
      rw [splitExtension?_append hcut hext, splitExtension?_append hcut' hext'] at hsplit
      obtain ⟨hstems, rfl⟩ := Prod.mk.inj (Option.some.inj hsplit)
      rw [List.append_cancel_right hstems]
    | atEnd hname' => exact absurd hnew (not_meets hstem hname')
  | atEnd hname =>
    cases h' with
    | beforeDot hstem' hext' => exact absurd hnew.symm (not_meets hstem' hname)
    | atEnd hname' => exact List.append_cancel_right hnew

/-! ## the copy -/

/-- the steps before the file name -/
def folder (p : Path) : List Component :=
  (p.components.reverse.dropWhile (· = .current)).tail.reverse

theorem folder_eq {p : Path} {dir : List Component} {name : List Char} {k : Nat}
    (h : p.components = dir ++ .entry name :: List.replicate k .current) : p.folder = dir := by
  unfold folder
  rw [h, List.reverse_append, List.reverse_cons, List.reverse_replicate, List.append_assoc,
    List.dropWhile_append_of_pos (by simp), List.singleton_append,
    List.dropWhile_cons_of_neg (by simp), List.tail_cons, List.reverse_reverse]

theorem lastEntry?_concat (steps : List Component) (name : List Char) :
    lastEntry? (steps ++ [.entry name]) = some name := by
  unfold lastEntry?
  rw [List.reverse_append]
  rfl

section
variable {p : Path} {name : List Char} {suffix : String}

theorem componentsOf_suffixed (hname : .entry name ∈ p.components) (hsuffix : suffix ≠ "")
    (hslash : '/' ∉ suffix.toList) :
    componentsOf (suffixed name suffix.toList) = [.entry (suffixed name suffix.toList)] := by
  obtain ⟨hne, hslash', hcurrent, -⟩ := name_of_mem_componentsOf hname
  have hsuffix' : suffix.toList ≠ [] := by simpa using hsuffix
  obtain ⟨hnil, hcurrent', hparent'⟩ := suffixed_ne hne hcurrent hsuffix'
  have hnone : '/' ∉ suffixed name suffix.toList := fun hmem =>
    (mem_of_mem_suffixed hmem).elim hslash' hslash
  rw [componentsOf_segment hnil hnone,
    Component.ofSegment_eq_entry_iff.mpr ⟨rfl, hcurrent', hparent'⟩]

theorem components_copyPath (hname : p.fileName? = some name) (hsuffix : suffix ≠ "")
    (hslash : '/' ∉ suffix.toList) :
    (∃ k, p.components = p.folder ++ .entry name :: List.replicate k .current) ∧
      (p.copyPath suffix).components = p.folder ++ [.entry (suffixed name suffix.toList)] := by
  obtain ⟨dir, k, hp, hcopy⟩ :=
    components_withFileName hname (suffixed (p.fileName?.getD []) suffix.toList)
  have hentry : .entry name ∈ p.components := by
    rw [hp]
    exact List.mem_append_right dir List.mem_cons_self
  rw [folder_eq hp]
  refine ⟨⟨k, hp⟩, ?_⟩
  unfold copyPath
  rw [hcopy, hname, Option.getD_some, componentsOf_suffixed hentry hsuffix hslash]

theorem fileName?_copyPath (hname : p.fileName? = some name) (hsuffix : suffix ≠ "")
    (hslash : '/' ∉ suffix.toList) :
    (p.copyPath suffix).fileName? = some (suffixed name suffix.toList) := by
  unfold fileName?
  rw [(components_copyPath hname hsuffix hslash).2]
  exact lastEntry?_concat _ _

theorem extension?_copyPath {ext : List Char} (hext : p.extension? = some ext)
    (hsuffix : suffix ≠ "") (hslash : '/' ∉ suffix.toList) :
    (p.copyPath suffix).extension? = some ext := by
  unfold extension? at hext ⊢
  obtain ⟨name, hname, hmap⟩ := Option.bind_eq_some_iff.mp hext
  obtain ⟨⟨stem, ext⟩, hsplit, rfl⟩ := Option.map_eq_some_iff.mp hmap
  have hstem := (eq_of_splitExtension? hsplit).2
  have hnew := List.append_ne_nil_of_left_ne_nil hstem suffix.toList
  rw [fileName?_copyPath hname hsuffix hslash, Option.bind_some]
  unfold suffixed
  rw [hsplit]
  dsimp only
  rw [splitExtension?_append hnew (dot_notMem_of_splitExtension? hsplit)]
  rfl

end

end Path

theorem Language.detect?_congr {p q : Path} (h : p.extension? = q.extension?)
    (registry : List Language) : detect? registry p = detect? registry q := by
  unfold detect? handles
  rw [h]

/-- **The copy has a name of its own in the same place**: the file's with the suffix in it, and the
file's extension and language if it has an extension.  Paths whose copies are the same have the same
name in the same place. -/
theorem copyPath_renames (p : Path) (suffix : String) (name : List Char)
    (hname : p.fileName? = some name) (hsuffix : suffix ≠ "") (hslash : '/' ∉ suffix.toList) :
    (∃ k new, p.components = p.folder ++ .entry name :: List.replicate k .current ∧
      Path.Inserted suffix.toList name new ∧
      (p.copyPath suffix).components = p.folder ++ [.entry new]) ∧
    (∀ ext, p.extension? = some ext → (p.copyPath suffix).extension? = some ext ∧
      ∀ registry, Language.detect? registry (p.copyPath suffix) = Language.detect? registry p) ∧
    ¬ (p.copyPath suffix).Same p ∧
    ∀ (q : Path) (other : List Char), q.fileName? = some other →
      (p.copyPath suffix).Same (q.copyPath suffix) → p.folder = q.folder ∧ name = other := by
  obtain ⟨⟨k, hp⟩, hcopy⟩ := Path.components_copyPath hname hsuffix hslash
  refine ⟨⟨k, _, hp, Path.inserted_suffixed name suffix.toList, hcopy⟩, ?_, ?_, ?_⟩
  · intro ext hext
    have hkept := Path.extension?_copyPath hext hsuffix hslash
    exact ⟨hkept, Language.detect?_congr (hkept.trans hext.symm)⟩
  · intro hsame
    have hsteps : (p.copyPath suffix).components = p.components := hsame
    rw [hcopy, hp] at hsteps
    have hlast := List.append_cancel_left hsteps
    exact Path.suffixed_ne_self name (by simpa using hsuffix)
      (Path.Component.entry.inj (List.cons.inj hlast).1)
  · intro q other hother hsame
    obtain ⟨-, hcopy'⟩ := Path.components_copyPath hother hsuffix hslash
    have hsteps : (p.copyPath suffix).components = (q.copyPath suffix).components := hsame
    rw [hcopy, hcopy'] at hsteps
    obtain ⟨hfolder, hlast⟩ := List.append_inj' hsteps rfl
    have hnew := Path.Component.entry.inj (List.singleton_inj.mp hlast)
    have hinserted := Path.inserted_suffixed other suffix.toList
    rw [← hnew] at hinserted
    exact ⟨hfolder, (Path.inserted_suffixed name suffix.toList).unique hinserted⟩

/-- a suffix with dots, slashes to spare and a step `.` after the name -/
theorem copyPath_renames_dots :
    Path.fileName? ⟨"/d//x.tar.gz/./"⟩ = some "x.tar.gz".toList ∧
    (Path.copyPath ⟨"/d//x.tar.gz/./"⟩ ".1.").extension? = some "gz".toList ∧
    ¬ (Path.copyPath ⟨"/d//x.tar.gz/./"⟩ ".1.").Same ⟨"/d//x.tar.gz/./"⟩ := by
  have hname : Path.fileName? ⟨"/d//x.tar.gz/./"⟩ = some "x.tar.gz".toList := by decide
  obtain ⟨-, hext, hother, -⟩ :=
    copyPath_renames ⟨"/d//x.tar.gz/./"⟩ ".1." _ hname (by decide) (by decide)
  exact ⟨hname, (hext _ (by decide)).1, hother⟩

end CommentFree
