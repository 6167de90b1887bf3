import CommentFree.Config.Document
import CommentFree.Proofs.Session
import CommentFree.Proofs.Utf8

/-!
# What a session does to the files

Every exit of a session leaves the files as they were but for at most two paths, the file's and
the copy's.

* `Leaves`                    what is left of the files, by how the session ended;
* `Ends.leaves`               every exit leaves that much;
* `Ends.result_eq`            how a session ends that finds comments, if nothing fails;
* `Leaves.contents_path`      the file changes in a replacement only, and is never missing
                              (`Leaves.isSome_path`), as long as the copy is another one;
* `Leaves.lookup?_of_ne`      a session that succeeds keeps all other files.

A file that stood at the copy's path before is written over by the copy and gone with it.
-/

namespace CommentFree

open Memory (contents exec)

variable {config : Config} {path : Path} {options : StripOptions} {s after : Memory}
  {result : Except Failure Report}

/-- a session finds a text at the path, and stripping it gives `t` -/
def StripsTo (config : Config) (path : Path) (s : Memory) (t : Stripped) : Prop :=
  ∃ language source, Finds config path s language source ∧ t = strip source language

/-- what a session that ended so leaves of the files -/
def Leaves (config : Config) (path : Path) (s after : Memory) : Except Failure Report → Prop
  | .ok (.replaced p n) => p = path ∧ ∃ t, StripsTo config path s t ∧ n = t.removed ∧
      contents after.files =
        Function.update
          (Function.update (contents s.files) (path.copyPath config.outputSuffix).components none)
          path.components (some (Utf8.ofString t.text))
  | .ok (.discarded copy) => copy = path.copyPath config.outputSuffix ∧
      contents after.files = Function.update (contents s.files) copy.components none
  | .ok .noComments => contents after.files = contents s.files
  | .error _ => contents after.files = contents s.files ∨
      ∃ t, StripsTo config path s t ∧ contents after.files =
        Function.update (contents s.files) (path.copyPath config.outputSuffix).components
          (some (Utf8.ofString t.text))

theorem Memory.text_of_lookup? {s : Memory} {p : Path} {text : String}
    (h : lookup? s.files p = some (Utf8.ofString text)) : s.text p = .ok text := by
  unfold Memory.text
  rw [h]
  dsimp only
  rw [Utf8.decode?_ofString]

/-- a text that was stored is read back -/
theorem Memory.text_store (s : Memory) (p : Path) (text : String) :
    (s.store p (Utf8.ofString text)).text p = .ok text := by
  apply text_of_lookup?
  show lookup? (bind s.files p (Utf8.ofString text)) p = _
  rw [lookup?_eq_contents, contents_bind, Function.update_self]

theorem Finds.isSome_contents {language : Language} {source : String}
    (h : Finds config path s language source) : (contents s.files path.components).isSome := by
  have hs := h.source
  unfold Memory.text at hs
  rw [Memory.lookup?_eq_contents] at hs
  cases hc : contents s.files path.components with
  | none =>
    rw [hc] at hs
    cases hs
  | some content => rfl

theorem Ends.leaves (h : Ends config path options s (result, after)) :
    Leaves config path s after result := by
  have hdecided := Memory.contents_decided s options config path
  cases h with
  | unsupported | unreadable | unsaid => exact .inl rfl
  | noComments => exact rfl
  | unshown h => exact .inr ⟨_, ⟨_, _, h, rfl⟩, Memory.contents_bind ..⟩
  | unreplaced h | undiscarded h => exact .inr ⟨_, ⟨_, _, h, rfl⟩, hdecided ..⟩
  | replaced h =>
    refine ⟨rfl, _, ⟨_, _, h, rfl⟩, rfl, ?_⟩
    show contents (Memory.bind (Memory.erase _ _) _ _) = _
    rw [Memory.contents_bind, Memory.contents_erase, hdecided, Function.update_idem]
  | discarded h =>
    refine ⟨rfl, ?_⟩
    show contents (Memory.erase _ _) = _
    rw [Memory.contents_erase, hdecided, Function.update_idem]

theorem Ends.input_eq (h : Ends config path options s (result, after)) :
    after.input = s.input ∨
      options.assumeYes = false ∧ ∃ line, s.input = line :: after.input := by
  cases h with
  | unsupported | unreadable | unsaid | noComments | unshown => exact .inl rfl
  | unreplaced | replaced | undiscarded | discarded => exact Memory.decided_input ..

theorem Finds.unique {language language' : Language} {source source' : String}
    (h : Finds config path s language source) (h' : Finds config path s language' source') :
    language = language' ∧ source = source' := by
  have hl := h.language.symm.trans h'.language
  have hs := h.source.symm.trans h'.source
  exact ⟨Option.some.inj hl, Except.ok.inj hs⟩

/-- the one report when there are comments and nothing fails -/
theorem Ends.result_eq {language : Language} {source : String}
    (h : Ends config path options s (result, after))
    (hfinds : Finds config path s language source) (hfound : (strip source language).found = true)
    (hprint : s.failPrint = false)
    (hlast : (if options.accepts s then s.failRename else s.failRemove) = false) :
    result = .ok (if options.accepts s then .replaced path (strip source language).removed
      else .discarded (path.copyPath config.outputSuffix)) := by
  cases h with
  | unsupported h =>
    rw [hfinds.language] at h
    cases h
  | unreadable h =>
    rw [hfinds.source] at h
    cases h
  | unsaid _ _ hp | unshown _ _ hp =>
    rw [hprint] at hp
    cases hp
  | noComments h hf =>
    obtain ⟨rfl, rfl⟩ := hfinds.unique h
    rw [hfound] at hf
    cases hf
  | unreplaced _ _ _ haccept hrename =>
    rw [haccept, if_pos rfl, hrename] at hlast
    cases hlast
  | undiscarded _ _ _ haccept hremove =>
    rw [haccept, if_neg Bool.false_ne_true, hremove] at hlast
    cases hlast
  | replaced h _ _ haccept =>
    obtain ⟨rfl, rfl⟩ := hfinds.unique h
    rw [haccept, if_pos rfl]
  | discarded _ _ _ haccept => rw [haccept, if_neg Bool.false_ne_true]

theorem exec_stripFile_replaced {language : Language} {source : String}
    (hfinds : Finds config path s language source) (hfound : (strip source language).found = true)
    (hprint : s.failPrint = false) (hrename : s.failRename = false)
    (haccept : options.accepts s = true) :
    (exec (stripFile config path options) s).1 =
      .ok (.replaced path (strip source language).removed) := by
  have hends : Ends config path options s (exec (stripFile config path options) s) :=
    stripFile_ends config path options s
  have hreport := hends.result_eq hfinds hfound hprint (by rw [haccept, if_pos rfl, hrename])
  rwa [haccept, if_pos rfl] at hreport

/-! ## a place that is taken -/

/-- a file with a comment, and another one where its copy goes -/
def Memory.taken : Memory :=
  { empty with
    files := [(⟨"a.c"⟩, Utf8.ofString "x//y\n"), (⟨"a_1.c"⟩, Utf8.ofString "mine\n")]
    input := ["yes", "no"] }

theorem finds_taken : Finds .default ⟨"a.c"⟩ .taken Language.builtin[0] "x//y\n" where
  language := by decide
  source := Memory.text_of_lookup? rfl

theorem strip_taken : strip "x//y\n" Language.builtin[0] = ⟨"x\n", 1⟩ := by decide +kernel

theorem copyPath_taken : Path.copyPath ⟨"a.c"⟩ Config.default.outputSuffix = ⟨"a_1.c"⟩ := by
  decide +kernel

/-- a session on that file replaces it, by option or by the answer -/
theorem exec_stripFile_taken (options : StripOptions) : ∃ after,
    exec (stripFile .default ⟨"a.c"⟩ options) .taken = (.ok (.replaced ⟨"a.c"⟩ 1), after) := by
  have haccept : options.accepts .taken = true := by
    have hanswer : acceptsReplacement Memory.taken.input.head? = true := by decide
    unfold StripOptions.accepts
    rw [hanswer, Bool.or_true]
  have hreport := exec_stripFile_replaced finds_taken (by rw [strip_taken]; rfl) rfl rfl haccept
  rw [strip_taken] at hreport
  exact ⟨_, Prod.ext hreport rfl⟩

/-! ## the file itself -/

/-- the file changes in a replacement only -/
theorem Leaves.contents_path (h : Leaves config path s after result)
    (hcopy : ¬ (path.copyPath config.outputSuffix).Same path)
    (hresult : ∀ n, result ≠ .ok (.replaced path n)) :
    contents after.files path.components = contents s.files path.components := by
  have hne : path.components ≠ (path.copyPath config.outputSuffix).components := Ne.symm hcopy
  match result, h with
  | .ok (.replaced _ n), ⟨hp, _⟩ => exact absurd (hp ▸ rfl) (hresult n)
  | .ok (.discarded _), ⟨hq, he⟩ =>
    subst hq
    rw [he, Function.update_of_ne hne]
  | .ok .noComments, he => exact congrFun he _
  | .error _, .inl he => exact congrFun he _
  | .error _, .inr ⟨_, _, he⟩ => rw [he, Function.update_of_ne hne]

theorem Leaves.isSome_path (h : Leaves config path s after result)
    (hcopy : ¬ (path.copyPath config.outputSuffix).Same path)
    (hsome : (contents s.files path.components).isSome) :
    (contents after.files path.components).isSome := by
  by_cases hresult : ∃ n, result = .ok (.replaced path n)
  · obtain ⟨n, rfl⟩ := hresult
    obtain ⟨_, t, _, _, he⟩ := h
    rw [he, Function.update_self]
    rfl
  · rw [h.contents_path hcopy (not_exists.mp hresult)]
    exact hsome

/-- **A session never loses the file.**  What is left of the files is told by how the session
ended; the file is there whenever it was before and changes only when it is replaced; with
comments found and nothing failing it is replaced exactly when that is accepted; and at most one
line of input is read, none if nothing is asked. -/
theorem stripFile_keeps_file (config : Config) (path : Path) (options : StripOptions)
    (s after : Memory) (result : Except Failure Report)
    (hcopy : ¬ (path.copyPath config.outputSuffix).Same path)
    (hrun : exec (stripFile config path options) s = (result, after)) :
    Leaves config path s after result ∧
    ((contents s.files path.components).isSome →
      (contents after.files path.components).isSome) ∧
    (contents after.files path.components ≠ contents s.files path.components →
      ∃ n, result = .ok (.replaced path n)) ∧
    (∀ language source, Finds config path s language source →
      (strip source language).found = true → s.failPrint = false →
      (if options.accepts s then s.failRename else s.failRemove) = false →
      result = .ok (if options.accepts s then .replaced path (strip source language).removed
        else .discarded (path.copyPath config.outputSuffix))) ∧
    (after.input = s.input ∨
      options.assumeYes = false ∧ ∃ line, s.input = line :: after.input) := by
  have hends : Ends config path options s (result, after) :=
    hrun ▸ stripFile_ends config path options s
  refine ⟨hends.leaves, hends.leaves.isSome_path hcopy, ?_, ?_, hends.input_eq⟩
  · intro hchanged
    by_contra hresult
    exact hchanged (hends.leaves.contents_path hcopy (not_exists.mp hresult))
  · intro language source hfinds hfound hprint hlast
    exact hends.result_eq hfinds hfound hprint hlast

theorem stripFile_keeps_file_taken :
    ¬ (Path.copyPath ⟨"a.c"⟩ Config.default.outputSuffix).Same ⟨"a.c"⟩ ∧
    ∃ after,
      exec (stripFile .default ⟨"a.c"⟩ ⟨false, .never⟩) .taken =
        (.ok (.replaced ⟨"a.c"⟩ 1), after) ∧
      Leaves .default ⟨"a.c"⟩ .taken after (.ok (.replaced ⟨"a.c"⟩ 1)) ∧
      (contents after.files (Path.components ⟨"a.c"⟩)).isSome := by
  have hcopy : ¬ (Path.copyPath ⟨"a.c"⟩ Config.default.outputSuffix).Same ⟨"a.c"⟩ := by
    rw [copyPath_taken]
    decide
  obtain ⟨after, hrun⟩ := exec_stripFile_taken ⟨false, .never⟩
  obtain ⟨hleaves, hsome, _⟩ := stripFile_keeps_file .default ⟨"a.c"⟩ _ _ _ _ hcopy hrun
  exact ⟨hcopy, after, hrun, hleaves, hsome (by decide)⟩

/-! ## the other files -/

theorem Leaves.lookup?_of_ne {report : Report} (h : Leaves config path s after (.ok report))
    (p : Path) (hpath : ¬ p.Same path) (hcopy : ¬ p.Same (path.copyPath config.outputSuffix)) :
    Memory.lookup? after.files p = Memory.lookup? s.files p := by
  rw [Memory.lookup?_eq_contents, Memory.lookup?_eq_contents]
  match report, h with
  | .replaced _ _, ⟨_, _, _, _, he⟩ =>
    rw [he, Function.update_of_ne hpath, Function.update_of_ne hcopy]
  | .discarded _, ⟨hq, he⟩ =>
    subst hq
    rw [he, Function.update_of_ne hcopy]
  | .noComments, he => exact congrFun he _

theorem Leaves.lookup?_eq_none {report : Report} (h : Leaves config path s after (.ok report))
    (p : Path) (hp : Memory.lookup? s.files p = none) : Memory.lookup? after.files p = none := by
  rw [Memory.lookup?_eq_contents] at hp ⊢
  match report, h with
  | .replaced _ _, ⟨_, _, ⟨_, _, hfinds, _⟩, _, he⟩ =>
    have hpath : p.components ≠ path.components := by
      intro hpath
      have hsome := hfinds.isSome_contents
      rw [← hpath, hp] at hsome
      cases hsome
    rw [he, Function.update_of_ne hpath, Function.update_apply, hp, ite_self]
  | .discarded _, ⟨_, he⟩ => rw [he, Function.update_apply, hp, ite_self]
  | .noComments, he => rw [congrFun he p.components, hp]

/-- whatever stood at the copy's path is gone with the copy -/
theorem Leaves.lookup?_copy {report : Report} (h : Leaves config path s after (.ok report))
    (hreport : report ≠ .noComments) (hcopy : ¬ (path.copyPath config.outputSuffix).Same path) :
    Memory.lookup? after.files (path.copyPath config.outputSuffix) = none := by
  rw [Memory.lookup?_eq_contents]
  match report, h with
  | .replaced _ _, ⟨_, _, _, _, he⟩ =>
    rw [he, Function.update_of_ne hcopy, Function.update_self]
  | .discarded _, ⟨hq, he⟩ =>
    subst hq
    rw [he, Function.update_self]
  | .noComments, _ => exact absurd rfl hreport

/-- **A session touches two paths only.**  Files at other paths stay as they are and no new file
remains.  A file at the copy's path is left alone if there are no comments, and is gone
otherwise. -/
theorem stripFile_keeps_others (config : Config) (path : Path) (options : StripOptions)
    (s after : Memory) (report : Report)
    (hrun : exec (stripFile config path options) s = (.ok report, after)) :
    (∀ p : Path, ¬ p.Same path →
      (report = .noComments ∨ ¬ p.Same (path.copyPath config.outputSuffix)) →
      Memory.lookup? after.files p = Memory.lookup? s.files p) ∧
    (∀ p : Path, Memory.lookup? s.files p = none → Memory.lookup? after.files p = none) ∧
    (report ≠ .noComments → ¬ (path.copyPath config.outputSuffix).Same path →
      Memory.lookup? after.files (path.copyPath config.outputSuffix) = none) := by
  have hends : Ends config path options s (.ok report, after) :=
    hrun ▸ stripFile_ends config path options s
  have hleaves := hends.leaves
  refine ⟨?_, hleaves.lookup?_eq_none, hleaves.lookup?_copy⟩
  rintro p hpath (rfl | hcopy)
  · exact congrFun hleaves p.components
  · exact hleaves.lookup?_of_ne p hpath hcopy

theorem stripFile_keeps_others_taken : ∃ after,
    exec (stripFile .default ⟨"a.c"⟩ ⟨true, .never⟩) .taken = (.ok (.replaced ⟨"a.c"⟩ 1), after) ∧
      Memory.lookup? after.files ⟨"a_1.c"⟩ = none ∧ Memory.lookup? after.files ⟨"b.c"⟩ = none := by
  obtain ⟨after, hrun⟩ := exec_stripFile_taken ⟨true, .never⟩
  obtain ⟨_, hnew, hgone⟩ := stripFile_keeps_others .default ⟨"a.c"⟩ _ _ _ _ hrun
  rw [copyPath_taken] at hgone
  exact ⟨after, hrun, hgone (by decide) (by decide), hnew _ rfl⟩

/-- a session with a configuration that is accepted can take away a file it was not given -/
theorem stripFile_loses_taken : ¬ ∀ (document : String) (config : Config),
    Config.ofDocument document = .ok config →
    ∀ (path : Path) (options : StripOptions) (s after : Memory) (report : Report),
      exec (stripFile config path options) s = (.ok report, after) →
      (∀ (p : Path) (content : List UInt8), ¬ p.Same path →
        Memory.lookup? s.files p = some content → Memory.lookup? after.files p = some content) ∧
      (∀ p : Path, ¬ p.Same path →
        Memory.lookup? s.files p = none → Memory.lookup? after.files p = none) := by
  intro h
  have hconfig : Config.ofDocument "" = .ok .default := rfl
  obtain ⟨after, hrun⟩ := exec_stripFile_taken ⟨true, .never⟩
  obtain ⟨hkept, _⟩ := h "" .default hconfig ⟨"a.c"⟩ _ _ _ _ hrun
  have hmine := hkept ⟨"a_1.c"⟩ (Utf8.ofString "mine\n") (by decide) rfl
  have hends : Ends .default ⟨"a.c"⟩ ⟨true, .never⟩ .taken (_, after) :=
    hrun ▸ stripFile_ends .default ⟨"a.c"⟩ ⟨true, .never⟩ .taken
  have hgone := hends.leaves.lookup?_copy (by decide) (by rw [copyPath_taken]; decide)
  rw [copyPath_taken, hmine] at hgone
  cases hgone

end CommentFree
