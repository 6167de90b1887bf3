import CommentFree.Config
import CommentFree.Proofs.Sibling

/-!
# Which language a file is taken for

All that counts of a path is what follows the last dot of its name.  `Path.Spells` says how a path
may be written so that this is a given extension, letter by letter and apart from how paths are cut;
`extension?_of_spells` says that it is then read, whatever dots and slashes stand around it.
A registry is then asked for the first language that lists the extension (`Language.First`).

* `Path.Same.extension?_eq`   paths that are the same have the same extension;
* `handles_iff`               a language handles the paths whose extension it lists;
* `detect?_append`            a registry in two parts is asked part by part.
-/

namespace CommentFree

namespace Path

/-- the texts of paths to a name with an extension: behind the directory stands the name, behind the
name any number of slashes and of steps `.` -/
inductive Spells (ext : List Char) : List Char → Prop
  | name {dir stem : List Char} (hdir : dir = [] ∨ ∃ front, dir = front ++ ['/']) (hstem : stem ≠ [])
      (hslash : '/' ∉ stem) (hext : ext ≠ []) (hdot : '.' ∉ ext) (hslash' : '/' ∉ ext) :
      Spells ext (dir ++ stem ++ '.' :: ext)
  | slash {text : List Char} (h : Spells ext text) : Spells ext (text ++ ['/'])
  | here {text : List Char} (h : Spells ext text) : Spells ext (text ++ ['/', '.'])

theorem componentsOf_concat_slash (text : List Char) :
    componentsOf (text ++ ['/']) = componentsOf text := by
  rw [componentsOf_append_slash, componentsOf_nil, List.append_nil]

theorem componentsOf_append_here (text : List Char) :
    componentsOf (text ++ ['/', '.']) = componentsOf text ++ [.current] := by
  rw [componentsOf_append_slash]
  rfl

/-- a name with an extension is no `.` and no `..` -/
theorem componentsOf_dotted {stem ext : List Char} (hslash : '/' ∉ stem) (hext : ext ≠ [])
    (hdot : '.' ∉ ext) (hslash' : '/' ∉ ext) :
    componentsOf (stem ++ '.' :: ext) = [.entry (stem ++ '.' :: ext)] := by
  have hnone : '/' ∉ stem ++ '.' :: ext := by simp [hslash, hslash']
  have hother {dots : List Char} (hdots : ∀ c ∈ dots, c = '.') : stem ++ '.' :: ext ≠ dots := by
    rintro rfl
    obtain ⟨c, hc⟩ := List.exists_mem_of_ne_nil ext hext
    have hc' : c = '.' := hdots c (List.mem_append_right stem (List.mem_cons_of_mem _ hc))
    exact hdot (hc' ▸ hc)
  rw [componentsOf_segment (by simp) hnone,
    Component.ofSegment_eq_entry_iff.mpr ⟨rfl, hother (by simp), hother (by simp)⟩]

namespace Spells

variable {ext text : List Char}

theorem dot_notMem (h : Spells ext text) : '.' ∉ ext := by
  induction h with
  | name _ _ _ _ hdot => exact hdot
  | slash _ ih | here _ ih => exact ih

theorem lastEntry? (h : Spells ext text) :
    ∃ stem, stem ≠ [] ∧ Path.lastEntry? (componentsOf text) = some (stem ++ '.' :: ext) := by
  induction h with
  | @name dir stem hdir hstem hslash hext hdot hslash' =>
    refine ⟨stem, hstem, ?_⟩
    have hname := componentsOf_dotted hslash hext hdot hslash'
    rcases hdir with rfl | ⟨front, rfl⟩
    · rw [List.nil_append, hname]
      exact lastEntry?_concat [] _
    · rw [List.append_assoc, List.append_assoc, List.singleton_append, componentsOf_append_slash,
        hname]
      exact lastEntry?_concat _ _
  | slash _ ih =>
    rw [componentsOf_concat_slash]
    exact ih
  | here _ ih =>
    rw [componentsOf_append_here, lastEntry?_append_current]
    exact ih

end Spells

theorem extension?_of_spells {p : Path} {ext : List Char} (h : Spells ext p.text.toList) :
    p.extension? = some ext := by
  obtain ⟨stem, hstem, hlast⟩ := h.lastEntry?
  have hname : p.fileName? = some (stem ++ '.' :: ext) := hlast
  unfold extension?
  rw [hname, Option.bind_some, splitExtension?_append hstem h.dot_notMem]
  rfl

theorem Same.extension?_eq {p q : Path} (h : p.Same q) : p.extension? = q.extension? := by
  have hsteps : p.components = q.components := h
  unfold extension? fileName?
  rw [hsteps]

end Path

namespace Language

/-- the language goes by the extension: it is listed, perhaps with a dot in front, in letters of
either case -/
def Lists (l : Language) (ext : List Char) : Prop :=
  ∃ known ∈ l.extensions, (undotted known.toList).map Char.toLower = ext.map Char.toLower

instance (l : Language) (ext : List Char) : Decidable (l.Lists ext) :=
  inferInstanceAs (Decidable (∃ known ∈ l.extensions, _))

/-- the language is the first one of the registry that lists the extension -/
def First (registry : List Language) (ext : List Char) (l : Language) : Prop :=
  ∃ before after, registry = before ++ l :: after ∧ l.Lists ext ∧ ∀ k ∈ before, ¬ k.Lists ext

theorem undotted_of_notMem {ext : List Char} (h : '.' ∉ ext) : undotted ext = ext :=
  if_neg fun hhead => h (List.mem_of_head? hhead)

theorem handles_iff {p : Path} {ext : List Char} (h : Path.Spells ext p.text.toList)
    (l : Language) : l.handles p = true ↔ l.Lists ext := by
  unfold handles
  rw [Path.extension?_of_spells h]
  simp only [matchesExtension, Lists, List.any_eq_true, beq_iff_eq,
    undotted_of_notMem h.dot_notMem]

section
variable {p : Path} {ext : List Char} (h : Path.Spells ext p.text.toList)
include h

theorem detect?_eq_some_iff (registry : List Language) (l : Language) :
    detect? registry p = some l ↔ First registry ext l := by
  unfold detect? First
  rw [List.find?_eq_some_iff_append]
  simp only [Bool.not_eq_true', ← Bool.not_eq_true, handles_iff h]
  constructor
  · rintro ⟨hl, before, after, hregistry, hbefore⟩
    exact ⟨before, after, hregistry, hl, hbefore⟩
  · rintro ⟨before, after, hregistry, hl, hbefore⟩
    exact ⟨hl, before, after, hregistry, hbefore⟩

theorem detect?_eq_none_iff (registry : List Language) :
    detect? registry p = none ↔ ∀ l ∈ registry, ¬ l.Lists ext := by
  unfold detect?
  rw [List.find?_eq_none]
  simp only [handles_iff h]

end

theorem detect?_append (before after : List Language) (p : Path) :
    detect? (before ++ after) p = (detect? before p).or (detect? after p) :=
  List.find?_append

/-- **The last extension decides, and earlier entries win.**  A path whose name ends in an extension
is taken for the first language that lists it, wherever the file is, whatever the name is and
whatever slashes and steps `.` follow.  Paths that are the same are taken for the same language, and
what a configuration adds counts only where no built-in language does. -/
theorem detect?_first_listed (registry : List Language) :
    (∀ (p : Path) (ext : List Char), Path.Spells ext p.text.toList →
      (∀ l, detect? registry p = some l ↔ First registry ext l) ∧
      (detect? registry p = none ↔ ∀ l ∈ registry, ¬ l.Lists ext)) ∧
    (∀ p q : Path, p.Same q → detect? registry p = detect? registry q) ∧
    ∀ (config : Config) (p : Path),
      detect? config.registry p = (detect? builtin p).or (detect? config.languages p) := by
  refine ⟨fun p ext h => ⟨detect?_eq_some_iff h registry, detect?_eq_none_iff h registry⟩, ?_, ?_⟩
  · intro p q h
    exact detect?_congr h.extension?_eq registry
  · intro config p
    exact detect?_append builtin config.languages p

/-- dots before the name and in it, slashes and a step `.` behind it -/
def manyDots : Path := ⟨"//a.b/../x.tar/.c.PY/./"⟩

/-- the first two go by parts of the name that are no extension -/
def manyDotsRegistry : List Language :=
  [⟨"doubled", "1", "", "", ["..py", "tar"]⟩, ⟨"inner", "2", "", "", [".c", "c.py", ""]⟩,
   ⟨"plain", "3", "", "", [".b", "pY"]⟩, ⟨"later", "4", "", "", [".py"]⟩]

theorem detect?_first_listed_manyDots :
    Path.Spells "PY".toList manyDots.text.toList ∧ manyDots.Same ⟨"a.b//../x.tar/.c.PY/."⟩ ∧
    detect? manyDotsRegistry manyDots = some ⟨"plain", "3", "", "", [".b", "pY"]⟩ ∧
    detect? manyDotsRegistry ⟨"a.b//../x.tar/.c.PY/."⟩ = some ⟨"plain", "3", "", "", [".b", "pY"]⟩ := by
  have hspells : Path.Spells "PY".toList manyDots.text.toList :=
    .slash (.here (@Path.Spells.name _ "//a.b/../x.tar/".toList ".c".toList
      (.inr ⟨"//a.b/../x.tar".toList, rfl⟩) (by decide) (by decide) (by decide) (by decide)
      (by decide)))
  have hsame : manyDots.Same ⟨"a.b//../x.tar/.c.PY/."⟩ := by decide
  obtain ⟨hreads, hcongr, -⟩ := detect?_first_listed manyDotsRegistry
  have hfirst : First manyDotsRegistry "PY".toList ⟨"plain", "3", "", "", [".b", "pY"]⟩ :=
    ⟨manyDotsRegistry.take 2, manyDotsRegistry.drop 3, rfl, by decide, by decide⟩
  have hfound := ((hreads manyDots _ hspells).1 _).mpr hfirst
  exact ⟨hspells, hsame, hfound, (hcongr _ _ hsame).symm.trans hfound⟩

end Language

end CommentFree
