import CommentFree.Proofs.Files
import CommentFree.Proofs.Path
import CommentFree.Proofs.Validation

/-!
# The copy and the file

A session is safe as long as the copy is another file than the one it is a copy of
(`stripFile_keeps_file`).  The copy's name is the file's with a suffix in it, but it is the text
that is changed and the components that count, and a suffix may have slashes and dots of its own.
A name with an empty extension ends in a dot.  A suffix that begins with `./` ends the name there,
as it was, and leaves steps `.` behind it; if the path has as many of them, nothing has changed.
`copyPath_same_iff` says that this is the only way:

* `componentsOf_suffixed_iff`        which suffixes leave the components of a name alone;
* `Config.outputSuffix_ne_empty`     a configuration that is accepted has a suffix;
* `exists_fileName_of_detect?`       a file with a language has a name with an extension.
-/

namespace CommentFree

open Memory (contents exec)

namespace Path

/-! ## names with a suffix -/

/-- a text without slashes at the end of another is the end of one of its segments -/
theorem exists_segment_append (front : List Char) {back : List Char} (h : '/' ∉ back) :
    ∃ before, before ++ back ∈ segments (front ++ back) := by
  induction front with
  | nil =>
    refine ⟨[], ?_⟩
    rw [List.nil_append, segments_of_notMem h]
    exact List.mem_cons_self
  | cons c front ih =>
    obtain ⟨before, hbefore⟩ := ih
    by_cases hc : c = '/'
    · refine ⟨before, ?_⟩
      rw [hc, List.cons_append, segments_slash]
      exact List.mem_cons_of_mem _ hbefore
    · obtain ⟨s, ss, hs⟩ := List.exists_cons_of_ne_nil (segments_ne_nil (front ++ back))
      rw [hs] at hbefore
      rw [List.cons_append, segments_cons hc hs]
      rcases List.mem_cons.mp hbefore with rfl | hmem
      · exact ⟨c :: before, List.mem_cons_self⟩
      · exact ⟨before, List.mem_cons_of_mem _ hmem⟩

/-- a text is cut at its first slash in one way -/
theorem eq_of_append_slash_eq {a b c d : List Char} (ha : '/' ∉ a) (hc : '/' ∉ c)
    (h : a ++ '/' :: b = c ++ '/' :: d) : a = c ∧ b = d := by
  rcases List.append_eq_append_iff.mp h with ⟨t, rfl, ht⟩ | ⟨t, rfl, ht⟩
  · cases t with
    | nil => exact ⟨(List.append_nil a).symm, (List.cons.inj ht).2⟩
    | cons x t =>
      obtain ⟨rfl, -⟩ := List.cons.inj ht
      exact absurd (List.mem_append_right a List.mem_cons_self) hc
  · cases t with
    | nil => exact ⟨List.append_nil c, (List.cons.inj ht).2.symm⟩
    | cons x t =>
      obtain ⟨rfl, -⟩ := List.cons.inj ht
      exact absurd (List.mem_append_right c List.mem_cons_self) ha

/-- where all steps are `.`, nothing follows the last dot -/
theorem eq_nil_of_componentsOf_eq_replicate {front ext : List Char} {k : Nat} (h : '/' ∉ ext)
    (hsteps : componentsOf (front ++ '.' :: ext) = List.replicate k .current) : ext = [] := by
  have hback : '/' ∉ '.' :: ext := by simp [h]
  obtain ⟨before, hmem⟩ := exists_segment_append front hback
  have hstep : Component.ofSegment (before ++ '.' :: ext) ∈ componentsOf (front ++ '.' :: ext) :=
    List.mem_map.mpr ⟨_, List.mem_filter.mpr ⟨hmem, by simp⟩, rfl⟩
  rw [hsteps] at hstep
  have hdot := Component.ofSegment_eq_current_iff.mp (List.eq_of_mem_replicate hstep)
  have hlength := congrArg List.length hdot
  rw [List.length_append, List.length_cons, List.length_singleton] at hlength
  exact List.length_eq_zero_iff.mp (by omega)

/-- a suffix leaves the components of a name alone, but for steps `.`, only if the name ends in a dot
and the suffix begins with `./` -/
theorem componentsOf_suffixed_iff {stem ext suffix : List Char} {k : Nat} (hstem : stem ≠ [])
    (hslash : '/' ∉ stem ++ '.' :: ext) (hparent : stem ++ '.' :: ext ≠ ['.', '.'])
    (hsuffix : suffix ≠ []) :
    componentsOf (stem ++ suffix ++ '.' :: ext) =
        .entry (stem ++ '.' :: ext) :: List.replicate k .current ↔
      ext = [] ∧ ∃ tail, suffix = '.' :: '/' :: tail ∧
        componentsOf (tail ++ ['.']) = List.replicate k .current := by
  have hstem' : '/' ∉ stem := fun h => hslash (List.mem_append_left _ h)
  have hext : '/' ∉ ext := fun h => hslash (List.mem_append_right _ (List.mem_cons_of_mem _ h))
  by_cases hmem : '/' ∈ suffix
  · -- the first slash of the suffix ends the first component
    obtain ⟨a, tail, rfl, ha⟩ := List.eq_append_cons_of_mem hmem
    have htext : stem ++ (a ++ '/' :: tail) ++ '.' :: ext =
        (stem ++ a) ++ '/' :: (tail ++ '.' :: ext) := by simp
    have hfirst : '/' ∉ stem ++ a := by
      rw [List.mem_append, not_or]
      exact ⟨hstem', ha⟩
    rw [htext, componentsOf_append_slash, componentsOf_segment (by simp [hstem]) hfirst,
      List.singleton_append, List.cons.injEq, Component.ofSegment_eq_entry_iff]
    constructor
    · rintro ⟨⟨hname, -, -⟩, hrest⟩
      have hnil := eq_nil_of_componentsOf_eq_replicate hext hrest
      have ha' := List.append_cancel_left hname
      subst hnil ha'
      exact ⟨rfl, tail, rfl, hrest⟩
    · rintro ⟨rfl, tail', hsplit, hrest⟩
      have hdot : '/' ∉ ['.'] := by decide
      obtain ⟨rfl, rfl⟩ := eq_of_append_slash_eq ha hdot hsplit
      exact ⟨⟨rfl, by simp [hstem], hparent⟩, hrest⟩
  · -- one component only, longer than the name
    have hall : '/' ∉ stem ++ suffix ++ '.' :: ext := by
      simp [hstem', hmem, hext]
    rw [componentsOf_segment (by simp) hall]
    constructor
    · intro h
      have hname := (Component.ofSegment_eq_entry_iff.mp (List.cons.inj h).1).1
      rw [List.append_assoc] at hname
      have hlength := congrArg List.length (List.append_cancel_left hname)
      rw [List.length_append] at hlength
      exact absurd (List.length_eq_zero_iff.mp (by omega)) hsuffix
    · rintro ⟨-, tail, rfl, -⟩
      exact absurd (by simp) hmem

def trailing (p : Path) : List Component := p.components.reverse.takeWhile (· = .current)

theorem trailing_eq {p : Path} {dir : List Component} {name : List Char} {k : Nat}
    (h : p.components = dir ++ .entry name :: List.replicate k .current) :
    p.trailing = List.replicate k .current := by
  unfold trailing
  rw [h, List.reverse_append, List.reverse_cons, List.reverse_replicate, List.append_assoc,
    List.takeWhile_append_of_pos (by simp), List.singleton_append,
    List.takeWhile_cons_of_neg (by simp), List.append_nil]

theorem copyPath_same_of_name {p : Path} {stem ext : List Char} {suffix : String}
    (hname : p.fileName? = some (stem ++ '.' :: ext))
    (hsplit : splitExtension? (stem ++ '.' :: ext) = some (stem, ext)) (hsuffix : suffix ≠ "") :
    (p.copyPath suffix).Same p ↔ ext = [] ∧ ∃ tail, suffix.toList = '.' :: '/' :: tail ∧
      componentsOf (tail ++ ['.']) = p.trailing := by
  obtain ⟨dir, k, hp, hcopy⟩ :=
    components_withFileName hname (suffixed (p.fileName?.getD []) suffix.toList)
  have hentry : .entry (stem ++ '.' :: ext) ∈ p.components := by
    rw [hp]
    exact List.mem_append_right dir List.mem_cons_self
  obtain ⟨-, hslash, -, hparent⟩ := name_of_mem_componentsOf hentry
  have hstem := (eq_of_splitExtension? hsplit).2
  have hne : suffix.toList ≠ [] := by simpa using hsuffix
  unfold Same copyPath
  rw [hcopy, hp, List.append_cancel_left_eq, hname, Option.getD_some, suffixed, hsplit,
    trailing_eq hp]
  exact componentsOf_suffixed_iff hstem hslash hparent hne

end Path

/-! ## configurations that are accepted -/

theorem Config.exists_accept_of_ofDocument {document : String} {config : Config}
    (h : Config.ofDocument document = .ok config) : ∃ c : Config, c.accept = .ok config := by
  have hread : Config.read document = .ok config := mapError_eq_ok_iff.mp h
  unfold read at hread
  cases hparse : Toml.parse document with
  | none =>
    rw [hparse] at hread
    exact nomatch hread
  | some entries =>
    rw [hparse] at hread
    obtain ⟨c, _, haccept⟩ := bind_eq_ok_iff.mp hread
    exact ⟨c, mapError_eq_ok_iff.mp haccept⟩

theorem Config.outputSuffix_ne_empty {document : String} {config : Config}
    (h : Config.ofDocument document = .ok config) : config.outputSuffix ≠ "" := by
  obtain ⟨c, hc⟩ := exists_accept_of_ofDocument h
  obtain ⟨husable, rfl⟩ := accept_eq_ok_iff.mp hc
  exact husable.suffix

theorem exists_fileName_of_detect? {registry : List Language} {p : Path} {language : Language}
    (h : Language.detect? registry p = some language) :
    ∃ stem ext, p.fileName? = some (stem ++ '.' :: ext) ∧
      Path.splitExtension? (stem ++ '.' :: ext) = some (stem, ext) ∧ p.extension? = some ext := by
  have hhandles := List.find?_some h
  unfold Language.handles at hhandles
  cases hext : p.extension? with
  | none =>
    rw [hext] at hhandles
    exact nomatch hhandles
  | some ext =>
    unfold Path.extension? at hext
    obtain ⟨name, hname, hmap⟩ := Option.bind_eq_some_iff.mp hext
    obtain ⟨⟨stem, ext'⟩, hsplit, rfl⟩ := Option.map_eq_some_iff.mp hmap
    obtain ⟨rfl, -⟩ := Path.eq_of_splitExtension? hsplit
    exact ⟨stem, ext', hname, hsplit, rfl⟩

/-- **The copy is another file than the file**, unless the name of the file ends in a dot, the suffix
begins with `./`, and the rest of it before that dot spells the steps `.` that the path has after
the name.  As long as it is another file, a session changes the file by replacing it only. -/
theorem copyPath_same_iff (document : String) (config : Config)
    (hconfig : Config.ofDocument document = .ok config) (path : Path) (language : Language)
    (hdetect : Language.detect? config.registry path = some language) :
    ((path.copyPath config.outputSuffix).Same path ↔
      path.extension? = some [] ∧ ∃ tail, config.outputSuffix.toList = '.' :: '/' :: tail ∧
        Path.componentsOf (tail ++ ['.']) = path.trailing) ∧
    (¬ (path.copyPath config.outputSuffix).Same path →
      ∀ (options : StripOptions) (s after : Memory) (result : Except Failure Report),
        exec (stripFile config path options) s = (result, after) →
        (∀ n, result ≠ .ok (.replaced path n)) →
        contents after.files path.components = contents s.files path.components) := by
  obtain ⟨stem, ext, hname, hsplit, hext⟩ := exists_fileName_of_detect? hdetect
  constructor
  · rw [Path.copyPath_same_of_name hname hsplit (Config.outputSuffix_ne_empty hconfig), hext,
      Option.some.injEq]
  · intro hcopy options s after result hrun hresult
    have hends : Ends config path options s (result, after) :=
      hrun ▸ stripFile_ends config path options s
    exact hends.leaves.contents_path hcopy hresult

/-- the default suffix, and a path with a step `.` after the name -/
theorem copyPath_same_iff_default :
    Config.ofDocument "" = .ok .default ∧
    Language.detect? Config.default.registry ⟨"d/a.c/."⟩ = some Language.builtin[0] ∧
    ¬ (Path.copyPath ⟨"d/a.c/."⟩ Config.default.outputSuffix).Same ⟨"d/a.c/."⟩ := by
  have hconfig : Config.ofDocument "" = .ok .default := rfl
  have hdetect : Language.detect? Config.default.registry ⟨"d/a.c/."⟩ =
      some Language.builtin[0] := by decide
  refine ⟨hconfig, hdetect, fun hsame => ?_⟩
  obtain ⟨hext, -⟩ := (copyPath_same_iff "" _ hconfig _ _ hdetect).1.mp hsame
  exact absurd hext (by decide)

/-! ## a suffix that is none -/

/-- a suffix that ends a name in a dot where it ended before -/
def Config.dotSlash : Config := ⟨"./", 3, [⟨"x", "#", "", "", [".x", "."]⟩]⟩

theorem Config.ofDocument_dotSlash : Config.ofDocument
    "output_suffix = './'\n[[language]]\nname = 'x'\nsingle_line = '#'\nextensions = ['x', '.']\n" =
      .ok .dotSlash := by
  have h : (Config.ofDocument
      "output_suffix = './'\n[[language]]\nname = 'x'\nsingle_line = '#'\nextensions = ['x', '.']\n").toOption =
        some .dotSlash := by decide +kernel
  generalize Config.ofDocument _ = read at h ⊢
  cases read with
  | error e => exact nomatch h
  | ok config => exact congrArg Except.ok (Option.some.inj h)

/-- one file, and nobody to answer -/
def Memory.dotted : Memory := empty.store ⟨"a./."⟩ (Utf8.ofString "x#y\n")

/-- declining a copy that is the file itself takes the file away -/
theorem copyPath_same_dotSlash :
    (∃ document, Config.ofDocument document = .ok .dotSlash) ∧
    (Language.detect? Config.dotSlash.registry ⟨"a./."⟩).isSome ∧
    (Path.copyPath ⟨"a./."⟩ Config.dotSlash.outputSuffix).Same ⟨"a./."⟩ ∧
    ∃ after, exec (stripFile .dotSlash ⟨"a./."⟩ ⟨false, .never⟩) .dotted =
        (.ok (.discarded ⟨"a./."⟩), after) ∧
      (Memory.lookup? Memory.dotted.files ⟨"a./."⟩).isSome ∧
      Memory.lookup? after.files ⟨"a./."⟩ = none := by
  have hcopy : Path.copyPath ⟨"a./."⟩ Config.dotSlash.outputSuffix = ⟨"a./."⟩ := by decide +kernel
  have hdetect : Language.detect? Config.dotSlash.registry ⟨"a./."⟩ =
      some ⟨"x", "#", "", "", [".x", "."]⟩ := by decide
  have hfinds : Finds .dotSlash ⟨"a./."⟩ .dotted ⟨"x", "#", "", "", [".x", "."]⟩ "x#y\n" :=
    ⟨hdetect, Memory.text_store _ _ _⟩
  have hstrip : strip "x#y\n" ⟨"x", "#", "", "", [".x", "."]⟩ = ⟨"x\n", 1⟩ := by decide +kernel
  have hdecline : StripOptions.accepts ⟨false, .never⟩ .dotted = false := rfl
  obtain ⟨⟨result, after⟩, hrun⟩ :
    ∃ r, exec (stripFile .dotSlash ⟨"a./."⟩ ⟨false, .never⟩) .dotted = r := ⟨_, rfl⟩
  have hends : Ends .dotSlash ⟨"a./."⟩ ⟨false, .never⟩ .dotted (result, after) :=
    hrun ▸ stripFile_ends ..
  have hresult : result = .ok (.discarded ⟨"a./."⟩) := by
    rw [hends.result_eq hfinds (by rw [hstrip]; rfl) rfl (by rw [hdecline]; rfl), hdecline,
      if_neg Bool.false_ne_true, hcopy]
  subst hresult
  obtain ⟨-, hfiles⟩ := hends.leaves
  refine ⟨⟨_, Config.ofDocument_dotSlash⟩, ?_, ?_, after, hrun, by decide, ?_⟩
  · rw [hdetect]
    rfl
  · rw [hcopy]
    exact Path.Same.refl _
  · rw [Memory.lookup?_eq_contents, hfiles, Function.update_self]

end CommentFree
