import CommentFree.Proofs.Files
import CommentFree.Proofs.Simulation

/-!
# Sessions on files apart

A session that asks nothing reads and writes two entries of the map, the file's and the copy's.  What
it does there depends on nothing else than these entries and what was set to fail (`agree`), and it
leaves everything else as it is (`Ends.agreesOn`).  So two sessions with no entry in common do not
notice each other, whatever either of them ends in, and can be run in either order.
-/

namespace CommentFree

open Memory (exec stored?)

/-! ## states alike -/

/-- states that agree on some entries, and on all that is not a file or an output -/
structure Memory.AgreesOn (K : List Path.Component → Prop) (s t : Memory) : Prop where
  stored : ∀ k, K k → stored? s.files k = stored? t.files k
  input : s.input = t.input
  failPrint : s.failPrint = t.failPrint
  failRename : s.failRename = t.failRename
  failRemove : s.failRemove = t.failRemove
  showsColor : s.showsColor = t.showsColor

namespace Memory.AgreesOn

variable {K K' : List Path.Component → Prop} {s t : Memory} {p : Path}

theorem mono (h : AgreesOn K s t) (hK : ∀ k, K' k → K k) : AgreesOn K' s t :=
  { h with stored := fun k hk => h.stored k (hK k hk) }

theorem lookup?_eq (h : AgreesOn K s t) (hp : K p.components) :
    lookup? s.files p = lookup? t.files p := by
  rw [lookup?_eq_contents, lookup?_eq_contents, contents_eq_stored?, contents_eq_stored?,
    h.stored p.components hp]

theorem store (h : AgreesOn K s t) (hp : K p.components) (content : List UInt8) :
    AgreesOn K (s.store p content) (t.store p content) := by
  have hspelling : spelling s.files p = spelling t.files p := by
    unfold spelling
    rw [h.stored p.components hp]
  refine { h with stored := fun k hk => ?_ }
  show stored? (bind s.files p content) k = stored? (bind t.files p content) k
  rw [stored?_bind, stored?_bind, hspelling, Function.update_apply, Function.update_apply,
    h.stored k hk]

theorem discard (h : AgreesOn K s t) (p : Path) : AgreesOn K (s.discard p) (t.discard p) := by
  refine { h with stored := fun k hk => ?_ }
  show stored? (erase s.files p) k = stored? (erase t.files p) k
  rw [stored?_erase, stored?_erase, Function.update_apply, Function.update_apply, h.stored k hk]

theorem say (h : AgreesOn K s t) (text : String) : AgreesOn K (s.say text) (t.say text) :=
  { h with }

end Memory.AgreesOn

/-! ## what a session depends on -/

namespace Memory

variable {K : List Path.Component → Prop} {path copy : Path}

theorem simulates_of_exec {α : Type} {R : Memory → Memory → Prop} {A : Failure → Failure → Prop}
    {x y : ExceptT Failure Run α}
    (h : ∀ s t, R s t → Matches A (exec x s).1 (exec y t).1 ∧ R (exec x s).2 (exec y t).2) :
    Simulates R A x y := h

/-- the two hosts are one, in states that agree on both entries -/
theorem agree (hpath : K path.components) (hcopy : K copy.components) :
    Agree (AgreesOn K) Eq path copy where
  refl _ := rfl
  withContext context e f h := congrArg (·.withContext context) h
  load := by
    refine simulates_of_exec fun s t h => ?_
    rw [exec_load, exec_load, h.lookup?_eq hpath]
    cases lookup? t.files path with
    | none => exact ⟨.error rfl, h⟩
    | some content => exact ⟨.ok _, h⟩
  create content := by
    intro s t h
    exact ⟨.ok (), h.store hcopy content⟩
  rename := by
    refine simulates_of_exec fun s t h => ?_
    rw [exec_rename, exec_rename, h.failRename, h.lookup?_eq hcopy]
    cases t.failRename with
    | true => exact ⟨.error rfl, h⟩
    | false =>
      rw [if_neg Bool.false_ne_true, if_neg Bool.false_ne_true]
      cases lookup? t.files copy with
      | none => exact ⟨.error rfl, h⟩
      | some content => exact ⟨.ok (), (h.discard copy).store hpath content⟩
  remove := by
    refine simulates_of_exec fun s t h => ?_
    rw [exec_remove, exec_remove, h.failRemove, h.lookup?_eq hcopy]
    cases t.failRemove with
    | true => exact ⟨.error rfl, h⟩
    | false =>
      rw [if_neg Bool.false_ne_true, if_neg Bool.false_ne_true]
      cases lookup? t.files copy with
      | none => exact ⟨.error rfl, h⟩
      | some content => exact ⟨.ok (), h.discard copy⟩
  print text := by
    refine simulates_of_exec fun s t h => ?_
    rw [exec_print, exec_print, h.failPrint]
    cases t.failPrint with
    | true => exact ⟨.error rfl, h⟩
    | false => exact ⟨.ok (), h.say text⟩
  readLine := by
    refine simulates_of_exec fun s t h => ?_
    rw [exec_readLine, exec_readLine, h.input]
    exact ⟨.ok _, { h with input := rfl }⟩
  showsColor := by
    refine simulates_of_exec fun s t h => ?_
    rw [exec_showsColor, exec_showsColor, h.showsColor]
    exact ⟨.ok _, h⟩

end Memory

/-! ## what a session leaves alone -/

/-- whether a session uses the entry at some components: the file's or the copy's -/
def Config.Touches (config : Config) (path : Path) (k : List Path.Component) : Prop :=
  k = path.components ∨ k = (path.copyPath config.outputSuffix).components

namespace Memory.AgreesOn

variable {K : List Path.Component → Prop} {s t : Memory} {p : Path}

theorem refl (s : Memory) : AgreesOn K s s := ⟨fun _ _ => rfl, rfl, rfl, rfl, rfl, rfl⟩

theorem said (h : AgreesOn K s t) (text : String) : AgreesOn K (s.say text) t := { h with }

theorem stored_elsewhere (h : AgreesOn K s t) (hp : ¬ K p.components) (content : List UInt8) :
    AgreesOn K (s.store p content) t := by
  refine { h with stored := fun k hk => ?_ }
  have hne : k ≠ p.components := fun hkp => hp (hkp ▸ hk)
  show stored? (bind s.files p content) k = _
  rw [stored?_bind, Function.update_of_ne hne, h.stored k hk]

theorem discarded_elsewhere (h : AgreesOn K s t) (hp : ¬ K p.components) :
    AgreesOn K (s.discard p) t := by
  refine { h with stored := fun k hk => ?_ }
  have hne : k ≠ p.components := fun hkp => hp (hkp ▸ hk)
  show stored? (erase s.files p) k = _
  rw [stored?_erase, Function.update_of_ne hne, h.stored k hk]

end Memory.AgreesOn

variable {config : Config} {path p q : Path} {options : StripOptions} {s after : Memory}
  {result : Except Failure Report}

theorem Memory.agreesOn_decided (hassume : options.assumeYes = true) (source : String)
    (t : Stripped) :
    AgreesOn (fun k => ¬ config.Touches path k) (s.decided config path options source t) s := by
  have hdecided : s.decided config path options source t =
      (s.store (path.copyPath config.outputSuffix) (Utf8.ofString t.text)).say
        (changeText config options.color path (path.copyPath config.outputSuffix) s source
          t.text) := by
    unfold decided asked
    rw [if_pos hassume]
  rw [hdecided]
  exact ((AgreesOn.refl s).stored_elsewhere (not_not.mpr (.inr rfl)) _).said _

theorem Ends.agreesOn (h : Ends config path options s (result, after))
    (hassume : options.assumeYes = true) :
    Memory.AgreesOn (fun k => ¬ config.Touches path k) after s := by
  have hpath : ¬ ¬ config.Touches path path.components := not_not.mpr (.inl rfl)
  have hcopy : ¬ ¬ config.Touches path (path.copyPath config.outputSuffix).components :=
    not_not.mpr (.inr rfl)
  have hdecided : ∀ source t, Memory.AgreesOn (fun k => ¬ config.Touches path k)
      (s.decided config path options source t) s := Memory.agreesOn_decided hassume
  cases h with
  | unsupported | unreadable | unsaid => exact .refl s
  | noComments => exact (Memory.AgreesOn.refl s).said _
  | unshown => exact (Memory.AgreesOn.refl s).stored_elsewhere hcopy _
  | unreplaced | undiscarded => exact hdecided _ _
  | replaced =>
    exact (((hdecided _ _).discarded_elsewhere hcopy).stored_elsewhere hpath _).said _
  | discarded => exact ((hdecided _ _).discarded_elsewhere hcopy).said _

/-! ## two sessions -/

/-- sessions that have no entry in common -/
def Config.Apart (config : Config) (p q : Path) : Prop :=
  ∀ a ∈ [p, p.copyPath config.outputSuffix], ∀ b ∈ [q, q.copyPath config.outputSuffix], ¬ a.Same b

theorem Config.Apart.symm (h : config.Apart p q) : config.Apart q p :=
  fun b hb a ha hsame => h a ha b hb hsame.symm

theorem Config.Touches.exists_mem {k : List Path.Component} (h : config.Touches p k) :
    ∃ a ∈ [p, p.copyPath config.outputSuffix], a.components = k := by
  rcases h with h | h
  · exact ⟨p, List.mem_cons_self, h.symm⟩
  · exact ⟨_, List.mem_cons_of_mem _ List.mem_cons_self, h.symm⟩

theorem Config.Apart.not_touches (h : config.Apart p q) {k : List Path.Component}
    (hk : config.Touches q k) : ¬ config.Touches p k := by
  intro hp
  obtain ⟨a, ha, rfl⟩ := hp.exists_mem
  obtain ⟨b, hb, hsame⟩ := hk.exists_mem
  exact h a ha b hb hsame.symm

/-- a session gives what it would have given without the one before, and leaves the same behind -/
theorem stripFile_undisturbed (hapart : config.Apart p q) (hassume : options.assumeYes = true)
    (s : Memory) :
    let run path := exec (stripFile config path options)
    (run q (run p s).2).1 = (run q s).1 ∧
      Memory.AgreesOn (config.Touches q) (run q (run p s).2).2 (run q s).2 := by
  intro run
  have hframe : Memory.AgreesOn (fun k => ¬ config.Touches p k) (run p s).2 s :=
    (stripFile_ends config p options s).agreesOn hassume
  have hq : Memory.AgreesOn (config.Touches q) (run p s).2 s :=
    hframe.mono fun k hk => hapart.not_touches hk
  have hagree : Agree (Memory.AgreesOn (config.Touches q)) Eq q (q.copyPath config.outputSuffix) :=
    Memory.agree (.inl rfl) (.inr rfl)
  obtain ⟨hresult, hstate⟩ := hagree.stripFile options _ _ hq
  exact ⟨hresult.eq, hstate⟩

/-- **Sessions on files apart commute.**  Each gives the same report or failure whichever is run
first, and both orders leave the same files, spelled the same. -/
theorem stripFile_commutes (config : Config) (color : Diff.ColorMode) (p q : Path) (s : Memory)
    (hapart : ∀ a ∈ [p, p.copyPath config.outputSuffix],
      ∀ b ∈ [q, q.copyPath config.outputSuffix], ¬ a.Same b) :
    let run path := exec (stripFile config path ⟨true, color⟩)
    (run p s).1 = (run p (run q s).2).1 ∧ (run q (run p s).2).1 = (run q s).1 ∧
      stored? (run q (run p s).2).2.files = stored? (run p (run q s).2).2.files := by
  intro run
  have hpq : config.Apart p q := hapart
  have hleaves : ∀ path t k, ¬ config.Touches path k →
      stored? (run path t).2.files k = stored? t.files k := fun path t =>
    ((stripFile_ends config path ⟨true, color⟩ t).agreesOn rfl).stored
  have hassume : (StripOptions.mk true color).assumeYes = true := rfl
  obtain ⟨hresultQ, hfilesQ⟩ := stripFile_undisturbed hpq hassume s
  obtain ⟨hresultP, hfilesP⟩ := stripFile_undisturbed hpq.symm hassume s
  refine ⟨hresultP.symm, hresultQ, funext fun k => ?_⟩
  by_cases hkq : config.Touches q k
  · have hkp := hpq.not_touches hkq
    calc stored? (run q (run p s).2).2.files k
        = stored? (run q s).2.files k := hfilesQ.stored k hkq
      _ = stored? (run p (run q s).2).2.files k := (hleaves p _ k hkp).symm
  · rw [hleaves q _ k hkq]
    by_cases hkp : config.Touches p k
    · exact (hfilesP.stored k hkp).symm
    · rw [hleaves p _ k hkp, hleaves p _ k hkp, hleaves q _ k hkq]

/-- two files with comments, of different languages -/
def Memory.both : Memory :=
  { empty with
    files := [(⟨"a.c"⟩, Utf8.ofString "x//y\n"), (⟨"b.py"⟩, Utf8.ofString "#u\n#v\n")] }

theorem stripFile_commutes_both :
    let runC := exec (stripFile .default ⟨"a.c"⟩ ⟨true, .never⟩)
    let runPy := exec (stripFile .default ⟨"b.py"⟩ ⟨true, .never⟩)
    (∀ a ∈ [⟨"a.c"⟩, Path.copyPath ⟨"a.c"⟩ Config.default.outputSuffix],
      ∀ b ∈ [⟨"b.py"⟩, Path.copyPath ⟨"b.py"⟩ Config.default.outputSuffix], ¬ a.Same b) ∧
    (runC (runPy .both).2).1 = .ok (.replaced ⟨"a.c"⟩ 1) ∧
    (runPy (runC .both).2).1 = .ok (.replaced ⟨"b.py"⟩ 2) ∧
    stored? (runPy (runC .both).2).2.files = stored? (runC (runPy .both).2).2.files := by
  intro runC runPy
  have hcopy : Path.copyPath ⟨"b.py"⟩ Config.default.outputSuffix = ⟨"b_1.py"⟩ := by decide +kernel
  have hapart : ∀ a ∈ [⟨"a.c"⟩, Path.copyPath ⟨"a.c"⟩ Config.default.outputSuffix],
      ∀ b ∈ [⟨"b.py"⟩, Path.copyPath ⟨"b.py"⟩ Config.default.outputSuffix], ¬ a.Same b := by
    rw [copyPath_taken, hcopy]
    decide
  have hfindsC : Finds .default ⟨"a.c"⟩ .both Language.builtin[0] "x//y\n" :=
    ⟨by decide, Memory.text_of_lookup? rfl⟩
  have hfindsPy : Finds .default ⟨"b.py"⟩ .both Language.builtin[1] "#u\n#v\n" :=
    ⟨by decide, Memory.text_of_lookup? rfl⟩
  have hstripPy : strip "#u\n#v\n" Language.builtin[1] = ⟨"\n\n", 2⟩ := by decide +kernel
  have hC : (runC .both).1 =
      .ok (.replaced ⟨"a.c"⟩ (strip "x//y\n" Language.builtin[0]).removed) :=
    exec_stripFile_replaced hfindsC (by rw [strip_taken]; rfl) rfl rfl rfl
  have hPy : (runPy .both).1 =
      .ok (.replaced ⟨"b.py"⟩ (strip "#u\n#v\n" Language.builtin[1]).removed) :=
    exec_stripFile_replaced hfindsPy (by rw [hstripPy]; rfl) rfl rfl rfl
  rw [strip_taken] at hC
  rw [hstripPy] at hPy
  obtain ⟨hresultC, hresultPy, hfiles⟩ :=
    stripFile_commutes .default .never ⟨"a.c"⟩ ⟨"b.py"⟩ .both hapart
  exact ⟨hapart, hresultC.symm.trans hC, hresultPy.trans hPy, hfiles⟩

end CommentFree
