import CommentFree.Proofs.Memory
import Mathlib.Data.Finmap

/-!
# The host in memory as a finite map

Whatever is done with the files in memory is done to a finite map from lists of components to
contents.  `FileMap` is that map, with the steps told in its own terms; the host answers every step
as the map does (`Represents.perform`).

The map knows no spellings.  They are seen in the stored keys only, and each key is spelled as in
the step that brought its entry into being (`FileStep.Makes`).  Writing over an entry keeps the key.  A
rename takes the source away before it looks at the target, so a file that is renamed to another
spelling of its own path gets a new key.

* `Performs`, `perform_performs`    the ways a step can go, from which the rest follows;
* `Tracks.perform`                  what one step keeps of a run;
* `runs_refine_map`                 the run.
-/

namespace CommentFree

open Memory (exec contents stored? spelling)

/-! ## steps -/

inductive Fallible where
  | print
  | rename
  | remove
  deriving DecidableEq

/-- a use of the files, which go by names of some kind -/
inductive FileStep (κ : Type) where
  | add (p : κ) (content : List UInt8)
  /-- opens a file, writes the chunks one by one and closes it -/
  | create (p : κ) (chunks : List (List UInt8))
  | remove (p : κ)
  | rename (source target : κ)
  | probe (p : κ)
  | read (p : κ)
  | readText (p : κ)
  | fail (what : Fallible)

def FileStep.map {κ κ' : Type} (f : κ → κ') : FileStep κ → FileStep κ'
  | add p content => add (f p) content
  | create p chunks => create (f p) chunks
  | remove p => remove (f p)
  | rename source target => rename (f source) (f target)
  | probe p => probe (f p)
  | read p => read (f p)
  | readText p => readText (f p)
  | fail what => fail what

/-- a step told by what its paths name -/
def FileStep.named (step : FileStep Path) : FileStep (List Path.Component) :=
  step.map Path.components

inductive Answer where
  | done
  | found (there : Bool)
  | bytes (content : List UInt8)
  | text (text : String)
  deriving DecidableEq

/-- the answers of a machine to steps one after the other, and the state it ends in -/
def runs {ι σ β : Type} (perform : ι → σ → β × σ) : List ι → σ → List β × σ
  | [], s => ([], s)
  | i :: is, s =>
    let (answer, t) := perform i s
    let (answers, u) := runs perform is t
    (answer :: answers, u)

theorem runs_concat {ι σ β : Type} (perform : ι → σ → β × σ) (is : List ι) (i : ι) (s : σ) :
    (runs perform (is ++ [i]) s).2 = (perform i (runs perform is s).2).2 := by
  induction is generalizing s with
  | nil => rfl
  | cons j is ih => exact ih (perform j s).2

/-! ## the host -/

namespace Memory

def fail (s : Memory) : Fallible → Memory
  | .print => { s with failPrint := true }
  | .rename => { s with failRename := true }
  | .remove => { s with failRemove := true }

theorem files_fail (s : Memory) (what : Fallible) : (s.fail what).files = s.files := by
  cases what with
  | print | rename | remove => rfl

def act : FileStep Path → ExceptT Failure Run Answer
  | .add p content => do modify (·.store p content); return .done
  | .create p chunks => do (chunks.foldl Writer.write ⟨p, []⟩).close; return .done
  | .remove p => do Host.remove p; return .done
  | .rename source target => do Host.rename source target; return .done
  | .probe p => return .found (← ExceptT.lift (Host.fileExists p))
  | .read p => return .bytes (← readBytes p)
  | .readText p => return .text (← readText p)
  | .fail what => do modify (·.fail what); return .done

def perform (step : FileStep Path) (s : Memory) : Except Failure Answer × Memory :=
  exec (act step) s

theorem buffer_writes (chunks : List (List UInt8)) (w : Writer) :
    chunks.foldl Writer.write w = ⟨w.path, w.buffer ++ chunks.flatten⟩ := by
  induction chunks generalizing w with
  | nil => rw [List.foldl_nil, List.flatten_nil, List.append_nil]
  | cons chunk chunks ih =>
    rw [List.foldl_cons, ih, List.flatten_cons, ← List.append_assoc]
    rfl

end Memory

/-! ## the map -/

/-- a finite map from what paths name to contents, and which operations fail -/
structure FileMap where
  files : Finmap fun _ : List Path.Component => List UInt8
  failRename : Bool
  failRemove : Bool

namespace FileMap

def empty : FileMap := ⟨∅, false, false⟩

def perform : FileStep (List Path.Component) → FileMap → Except FailureShape Answer × FileMap
  | .add k content, m => (.ok .done, { m with files := m.files.insert k content })
  | .create k chunks, m => (.ok .done, { m with files := m.files.insert k chunks.flatten })
  | .remove k, m =>
    if m.failRemove then (.error (.file .permissionDenied), m)
    else if k ∈ m.files then (.ok .done, { m with files := m.files.erase k })
    else (.error (.file .notFound), m)
  | .rename source target, m =>
    if m.failRename then (.error (.file .permissionDenied), m)
    else match m.files.lookup source with
      | some content =>
        (.ok .done, { m with files := (m.files.erase source).insert target content })
      | none => (.error (.file .notFound), m)
  | .probe k, m => (.ok (.found (k ∈ m.files)), m)
  | .read k, m =>
    match m.files.lookup k with
    | some content => (.ok (.bytes content), m)
    | none => (.error (.file .notFound), m)
  | .readText k, m =>
    match m.files.lookup k with
    | some content => match Utf8.decode? content with
      | some text => (.ok (.text text), m)
      | none => (.error .message, m)
    | none => (.error (.file .notFound), m)
  | .fail .print, m => (.ok .done, m)
  | .fail .rename, m => (.ok .done, { m with failRename := true })
  | .fail .remove, m => (.ok .done, { m with failRemove := true })

theorem lookup_insert (files : Finmap fun _ : List Path.Component => List UInt8)
    (k : List Path.Component) (content : List UInt8) :
    (fun k' => (files.insert k content).lookup k') =
      Function.update (fun k' => files.lookup k') k (some content) := by
  funext k'
  rw [Function.update_apply]
  by_cases h : k' = k
  · rw [if_pos h, h, Finmap.lookup_insert]
  · rw [if_neg h, Finmap.lookup_insert_of_ne _ h]

theorem lookup_erase (files : Finmap fun _ : List Path.Component => List UInt8)
    (k : List Path.Component) :
    (fun k' => (files.erase k).lookup k') =
      Function.update (fun k' => files.lookup k') k none := by
  funext k'
  rw [Function.update_apply]
  by_cases h : k' = k
  · rw [if_pos h, h, Finmap.lookup_erase]
  · rw [if_neg h, Finmap.lookup_erase_ne h]

end FileMap

/-! ## what a step does to the host -/

/-- the ways a step can go, each with its answer and the state after it -/
inductive Performs (s : Memory) : FileStep Path → Except Failure Answer × Memory → Prop
  | added (p : Path) (content : List UInt8) :
      Performs s (.add p content) (.ok .done, s.store p content)
  | created (p : Path) (chunks : List (List UInt8)) :
      Performs s (.create p chunks) (.ok .done, s.store p chunks.flatten)
  | removed {p : Path} {content : List UInt8} (hset : s.failRemove = false)
      (h : Memory.lookup? s.files p = some content) :
      Performs s (.remove p) (.ok .done, s.discard p)
  | removeDenied (p : Path) (hset : s.failRemove = true) :
      Performs s (.remove p) (.error (Memory.injected p.text), s)
  | removeMissing {p : Path} (hset : s.failRemove = false)
      (h : Memory.lookup? s.files p = none) :
      Performs s (.remove p) (.error (Memory.notFound p), s)
  | renamed {source : Path} (target : Path) {content : List UInt8} (hset : s.failRename = false)
      (h : Memory.lookup? s.files source = some content) :
      Performs s (.rename source target) (.ok .done, (s.discard source).store target content)
  | renameDenied (source target : Path) (hset : s.failRename = true) :
      Performs s (.rename source target) (.error (Memory.injected source.text), s)
  | renameMissing {source : Path} (target : Path) (hset : s.failRename = false)
      (h : Memory.lookup? s.files source = none) :
      Performs s (.rename source target) (.error (Memory.notFound source), s)
  | probed (p : Path) :
      Performs s (.probe p) (.ok (.found (Memory.lookup? s.files p).isSome), s)
  | read {p : Path} {content : List UInt8} (h : Memory.lookup? s.files p = some content) :
      Performs s (.read p) (.ok (.bytes content), s)
  | readMissing {p : Path} (h : Memory.lookup? s.files p = none) :
      Performs s (.read p) (.error (Memory.notFound p), s)
  | readText {p : Path} {content : List UInt8} {text : String}
      (h : Memory.lookup? s.files p = some content) (htext : Utf8.decode? content = some text) :
      Performs s (.readText p) (.ok (.text text), s)
  | readTextMissing {p : Path} (h : Memory.lookup? s.files p = none) :
      Performs s (.readText p) (.error (Memory.notFound p), s)
  | readTextBroken {p : Path} {content : List UInt8}
      (h : Memory.lookup? s.files p = some content) (htext : Utf8.decode? content = none) :
      Performs s (.readText p)
        (.error (.message ("File is not valid UTF-8: " ++ p.text)), s)
  | failed (what : Fallible) : Performs s (.fail what) (.ok .done, s.fail what)

namespace Memory

theorem perform_remove (p : Path) (s : Memory) :
    Performs s (.remove p) (perform (.remove p) s) := by
  show Performs s (.remove p) (exec (Host.remove p >>= fun _ => pure Answer.done) s)
  rw [exec_bind_pure, exec_remove]
  cases hset : s.failRemove with
  | true => exact .removeDenied p hset
  | false =>
    rw [if_neg Bool.false_ne_true]
    cases h : lookup? s.files p with
    | none => exact .removeMissing hset h
    | some content => exact .removed hset h

theorem perform_rename (source target : Path) (s : Memory) :
    Performs s (.rename source target) (perform (.rename source target) s) := by
  show Performs s (.rename source target)
    (exec (Host.rename source target >>= fun _ => pure Answer.done) s)
  rw [exec_bind_pure, exec_rename]
  cases hset : s.failRename with
  | true => exact .renameDenied source target hset
  | false =>
    rw [if_neg Bool.false_ne_true]
    cases h : lookup? s.files source with
    | none => exact .renameMissing target hset h
    | some content => exact .renamed target hset h

theorem perform_read (p : Path) (s : Memory) : Performs s (.read p) (perform (.read p) s) := by
  have hload := exec_load p s
  show Performs s (.read p) (exec (readBytes p >>= fun bytes => pure (Answer.bytes bytes)) s)
  rw [exec_bind_pure]
  cases h : lookup? s.files p with
  | none =>
    rw [h] at hload
    have hbytes : exec (readBytes p) s = (.error (notFound p), s) := exec_bind_error hload _
    rw [hbytes]
    exact .readMissing h
  | some content =>
    rw [h] at hload
    have hbytes : exec (readBytes p) s = (.ok content, s) := exec_bind_ok hload _
    rw [hbytes]
    exact .read h

theorem perform_readText (p : Path) (s : Memory) :
    Performs s (.readText p) (perform (.readText p) s) := by
  show Performs s (.readText p) (exec (readText p >>= fun text => pure (Answer.text text)) s)
  rw [exec_bind_pure, exec_readText]
  unfold text
  cases h : lookup? s.files p with
  | none => exact .readTextMissing h
  | some content =>
    dsimp only
    cases htext : Utf8.decode? content with
    | none => exact .readTextBroken h htext
    | some text => exact .readText h htext

theorem perform_performs (step : FileStep Path) (s : Memory) :
    Performs s step (perform step s) := by
  cases step with
  | add p content => exact .added p content
  | create p chunks =>
    have hclose : perform (.create p chunks) s = (.ok .done, s.store p chunks.flatten) := by
      show exec ((chunks.foldl Writer.write ⟨p, []⟩).close >>= fun _ => pure Answer.done) s = _
      rw [buffer_writes]
      rfl
    rw [hclose]
    exact .created p chunks
  | remove p => exact perform_remove p s
  | rename source target => exact perform_rename source target s
  | probe p => exact .probed p
  | read p => exact perform_read p s
  | readText p => exact perform_readText p s
  | fail what => exact .failed what

/-- a step that fails changes nothing -/
theorem perform_error {step : FileStep Path} {s : Memory} {e : Failure}
    (h : (perform step s).1 = .error e) : (perform step s).2 = s := by
  have hperforms := perform_performs step s
  generalize perform step s = r at hperforms h
  cases hperforms with
  | added | created | removed | renamed | failed => cases h
  | removeDenied | removeMissing | renameDenied | renameMissing => rfl
  | probed | read | readMissing | readText | readTextMissing | readTextBroken => rfl

end Memory

/-! ## the host does what the map does -/

/-- the map that the files of a host are -/
structure Represents (s : Memory) (m : FileMap) : Prop where
  files : contents s.files = fun k => m.files.lookup k
  failRename : s.failRename = m.failRename
  failRemove : s.failRemove = m.failRemove

namespace Represents

variable {s : Memory} {m : FileMap} {p : Path} {content : List UInt8}

theorem empty : Represents .empty .empty := ⟨funext fun _ => rfl, rfl, rfl⟩

theorem lookup_eq (h : Represents s m) {there : Option (List UInt8)}
    (hp : Memory.lookup? s.files p = there) : m.files.lookup p.components = there :=
  (congrFun h.files p.components).symm.trans hp

theorem mem_iff (h : Represents s m) :
    p.components ∈ m.files ↔ (Memory.lookup? s.files p).isSome := by
  rw [← Finmap.lookup_isSome, ← h.lookup_eq rfl]

theorem store (h : Represents s m) (p : Path) (content : List UInt8) :
    Represents (s.store p content) { m with files := m.files.insert p.components content } := by
  refine { h with files := ?_ }
  show contents (Memory.bind s.files p content) = _
  rw [Memory.contents_bind, h.files, FileMap.lookup_insert]

theorem discard (h : Represents s m) (p : Path) :
    Represents (s.discard p) { m with files := m.files.erase p.components } := by
  refine { h with files := ?_ }
  show contents (Memory.erase s.files p) = _
  rw [Memory.contents_erase, h.files, FileMap.lookup_erase]

/-- one step: the answers agree, and the map is still that of the host -/
theorem perform (h : Represents s m) (step : FileStep Path) :
    (Memory.perform step s).1.mapError (·.kind.shape) =
        (FileMap.perform (step.named) m).1 ∧
      Represents (Memory.perform step s).2 (FileMap.perform (step.named) m).2 := by
  have hperforms := Memory.perform_performs step s
  generalize Memory.perform step s = r at hperforms
  cases hperforms with
  | added p content => exact ⟨rfl, h.store p content⟩
  | created p chunks => exact ⟨rfl, h.store p chunks.flatten⟩
  | removed hset hp =>
    have hmem : _ ∈ m.files := h.mem_iff.mpr (by rw [hp]; rfl)
    have hset' : ¬ m.failRemove = true := by simp [← h.failRemove, hset]
    simp only [FileStep.named, FileStep.map, FileMap.perform, if_neg hset', if_pos hmem]
    exact ⟨rfl, h.discard _⟩
  | removeDenied p hset =>
    simp only [FileStep.named, FileStep.map, FileMap.perform, ← h.failRemove, hset]
    exact ⟨rfl, h⟩
  | removeMissing hset hp =>
    have hmem : ¬ _ ∈ m.files := fun hmem => absurd (h.mem_iff.mp hmem) (by rw [hp]; decide)
    simp only [FileStep.named, FileStep.map, FileMap.perform, ← h.failRemove, hset, if_neg hmem]
    exact ⟨rfl, h⟩
  | renamed target hset hp =>
    have hset' : ¬ m.failRename = true := by simp [← h.failRename, hset]
    simp only [FileStep.named, FileStep.map, FileMap.perform, if_neg hset', h.lookup_eq hp]
    exact ⟨rfl, (h.discard _).store target _⟩
  | renameDenied source target hset =>
    simp only [FileStep.named, FileStep.map, FileMap.perform, ← h.failRename, hset]
    exact ⟨rfl, h⟩
  | renameMissing target hset hp =>
    simp only [FileStep.named, FileStep.map, FileMap.perform, ← h.failRename, hset, h.lookup_eq hp]
    exact ⟨rfl, h⟩
  | probed p =>
    refine ⟨congrArg (fun b => Except.ok (Answer.found b)) ?_, h⟩
    rw [Bool.eq_iff_iff, decide_eq_true_iff]
    exact h.mem_iff.symm
  | read hp | readMissing hp | readTextMissing hp =>
    simp only [FileStep.named, FileStep.map, FileMap.perform, h.lookup_eq hp]
    exact ⟨rfl, h⟩
  | readText hp htext | readTextBroken hp htext =>
    simp only [FileStep.named, FileStep.map, FileMap.perform, h.lookup_eq hp, htext]
    exact ⟨rfl, h⟩
  | failed what =>
    cases what with
    | print => exact ⟨rfl, { h with }⟩
    | rename => exact ⟨rfl, { h with failRename := rfl }⟩
    | remove => exact ⟨rfl, { h with failRemove := rfl }⟩

end Represents

/-! ## keys -/

namespace Memory

variable {files : List (Path × List UInt8)} {p : Path} {f : Path × List UInt8}
  {k : List Path.Component}

theorem stored?_of_mem (hkeys : files.Pairwise fun f g => ¬ f.1.Same g.1) (hf : f ∈ files) :
    stored? files f.1.components = some f := by
  induction hkeys with
  | nil => cases hf
  | cons hhead _ ih =>
    rw [stored?_cons]
    rcases List.mem_cons.mp hf with rfl | hf
    · rw [if_pos rfl]
    · have hne : ¬ _ = f.1.components := hhead f hf
      rw [if_neg hne, ih hf]

theorem fst_of_mem_bind {content : List UInt8} (h : f ∈ bind files p content) :
    f.1 = p ∨ ∃ g ∈ files, g.1 = f.1 := by
  induction files with
  | nil =>
    rw [bind, List.mem_singleton] at h
    exact .inl (congrArg Prod.fst h)
  | cons g files ih =>
    rw [bind] at h
    by_cases hg : g.1.Same p
    · rw [if_pos hg] at h
      rcases List.mem_cons.mp h with rfl | h
      · exact .inr ⟨g, List.mem_cons_self, rfl⟩
      · exact .inr ⟨f, List.mem_cons_of_mem _ h, rfl⟩
    · rw [if_neg hg] at h
      rcases List.mem_cons.mp h with rfl | h
      · exact .inr ⟨f, List.mem_cons_self, rfl⟩
      · rcases ih h with hp | ⟨g', hg', hfst⟩
        · exact .inl hp
        · exact .inr ⟨g', List.mem_cons_of_mem _ hg', hfst⟩

theorem pairwise_bind (hkeys : files.Pairwise fun f g => ¬ f.1.Same g.1) (p : Path)
    (content : List UInt8) : (bind files p content).Pairwise fun f g => ¬ f.1.Same g.1 := by
  induction hkeys with
  | nil => exact List.pairwise_singleton _ _
  | @cons f files hhead htail ih =>
    rw [bind]
    by_cases hf : f.1.Same p
    · rw [if_pos hf]
      exact .cons hhead htail
    · rw [if_neg hf]
      refine .cons (fun g hg => ?_) ih
      rcases fst_of_mem_bind hg with hp | ⟨g', hg', hfst⟩
      · rw [hp]
        exact hf
      · rw [← hfst]
        exact hhead g' hg'

theorem pairwise_erase (hkeys : files.Pairwise fun f g => ¬ f.1.Same g.1) (p : Path) :
    (erase files p).Pairwise fun f g => ¬ f.1.Same g.1 := hkeys.filter _

theorem pairwise_perform {s : Memory} (hkeys : s.files.Pairwise fun f g => ¬ f.1.Same g.1)
    (step : FileStep Path) :
    (perform step s).2.files.Pairwise fun f g => ¬ f.1.Same g.1 := by
  have hperforms := perform_performs step s
  generalize perform step s = r at hperforms
  cases hperforms with
  | added | created => exact pairwise_bind hkeys _ _
  | removed => exact pairwise_erase hkeys _
  | renamed => exact pairwise_bind (pairwise_erase hkeys _) _ _
  | failed what =>
    rw [files_fail]
    exact hkeys
  | removeDenied | removeMissing | renameDenied | renameMissing => exact hkeys
  | probed | read | readMissing | readText | readTextMissing | readTextBroken => exact hkeys

end Memory

/-! ## spellings -/

/-- the step brings an entry into being, spelled so -/
def FileStep.Makes (m : FileMap) : FileStep Path → Path → Prop
  | .add p _, q => q = p ∧ p.components ∉ m.files
  | .create p _, q => q = p ∧ p.components ∉ m.files
  | .rename source target, q =>
    q = target ∧ m.failRename = false ∧ source.components ∈ m.files ∧
      target.components ∉ m.files.erase source.components
  | _, _ => False

theorem Memory.stored?_of_erase {files : List (Path × List UInt8)} {p : Path}
    {k : List Path.Component} {f : Path × List UInt8} (h : stored? (erase files p) k = some f) :
    stored? files k = some f := by
  rw [stored?_erase, Function.update_apply] at h
  by_cases hk : k = p.components
  · rw [if_pos hk] at h
    cases h
  · rwa [if_neg hk] at h

/-- after writing to a path a key is new and spelled as the path, or was there before -/
theorem Memory.stored?_bind_cases {files : List (Path × List UInt8)} {p : Path}
    {content : List UInt8} {k : List Path.Component} {f : Path × List UInt8} {Made : Path → Prop}
    (hmade : ∀ q, Made q ↔ q = p ∧ contents files p.components = none)
    (h : stored? (bind files p content) k = some f) :
    Made f.1 ∨ (∃ old, stored? files k = some (f.1, old)) ∧ ∀ q, Made q → q.components ≠ k := by
  rw [stored?_bind, Function.update_apply] at h
  rw [contents_eq_stored?] at hmade
  by_cases hk : k = p.components
  · subst hk
    rw [if_pos rfl] at h
    obtain rfl := Option.some.inj h
    unfold spelling
    cases hstored : stored? files p.components with
    | none => exact .inl ((hmade p).mpr ⟨rfl, by rw [hstored]; rfl⟩)
    | some g =>
      refine .inr ⟨⟨g.2, rfl⟩, fun q hq => ?_⟩
      have hnone := ((hmade q).mp hq).2
      rw [hstored] at hnone
      cases hnone
  · rw [if_neg hk] at h
    refine .inr ⟨⟨f.2, h⟩, fun q hq hqk => hk ?_⟩
    rw [← hqk, ((hmade q).mp hq).1]

namespace Represents

variable {s : Memory} {m : FileMap}

theorem notMem_iff (h : Represents s m) (k : List Path.Component) :
    k ∉ m.files ↔ contents s.files k = none := by
  rw [h.files, Finmap.lookup_eq_none]

/-- a key after a step is spelled as the step makes it, or it was there before and the step makes
none like it -/
theorem stored?_perform (h : Represents s m) {step : FileStep Path} {k : List Path.Component}
    {f : Path × List UInt8} (hf : stored? (Memory.perform step s).2.files k = some f) :
    step.Makes m f.1 ∨
      (∃ old, stored? s.files k = some (f.1, old)) ∧ ∀ q, step.Makes m q → q.components ≠ k := by
  have hperforms := Memory.perform_performs step s
  generalize Memory.perform step s = r at hperforms hf
  cases hperforms with
  | added p | created p =>
    exact Memory.stored?_bind_cases (fun q => and_congr_right fun _ => h.notMem_iff _) hf
  | @renamed source target content hset hp =>
    have hmakes : ∀ q, (FileStep.rename source target).Makes m q ↔
        q = target ∧ contents (s.discard source).files target.components = none := by
      have hfree := (h.discard source).notMem_iff target.components
      have hset' : m.failRename = false := h.failRename.symm.trans hset
      have hsource : source.components ∈ m.files := h.mem_iff.mpr (by rw [hp]; rfl)
      intro q
      rw [← hfree]
      exact and_congr_right fun _ => ⟨fun hq => hq.2.2, fun hq => ⟨hset', hsource, hq⟩⟩
    rcases Memory.stored?_bind_cases hmakes hf with hmade | ⟨⟨old, hold⟩, hother⟩
    · exact .inl hmade
    · exact .inr ⟨⟨old, Memory.stored?_of_erase hold⟩, hother⟩
  | removed => exact .inr ⟨⟨f.2, Memory.stored?_of_erase hf⟩, fun q hq => hq.elim⟩
  | renameDenied source target hset =>
    refine .inr ⟨⟨f.2, hf⟩, fun q ⟨_, hset', _⟩ => ?_⟩
    rw [← h.failRename, hset] at hset'
    cases hset'
  | renameMissing target hset hp =>
    refine .inr ⟨⟨f.2, hf⟩, fun q ⟨_, _, hsource, _⟩ => ?_⟩
    rw [h.mem_iff, hp] at hsource
    cases hsource
  | failed what =>
    rw [Memory.files_fail] at hf
    exact .inr ⟨⟨f.2, hf⟩, fun q hq => hq.elim⟩
  | removeDenied | removeMissing | probed | read | readMissing | readText | readTextMissing
  | readTextBroken => exact .inr ⟨⟨f.2, hf⟩, fun q hq => hq.elim⟩

end Represents

/-! ## runs -/

/-- the map after steps from the empty one -/
def mapAfter (steps : List (FileStep Path)) : FileMap :=
  (runs FileMap.perform (steps.map .named) .empty).2

/-- a step made an entry spelled so, and no step after it made one of the same path -/
def LastMade (steps : List (FileStep Path)) (p : Path) : Prop :=
  ∃ before step after, steps = before ++ step :: after ∧ step.Makes (mapAfter before) p ∧
    ∀ front later back, after = front ++ later :: back →
      ∀ q, later.Makes (mapAfter (before ++ step :: front)) q → ¬ q.Same p

theorem LastMade.concat {steps : List (FileStep Path)} {p : Path} (h : LastMade steps p)
    {step : FileStep Path} (hstep : ∀ q, step.Makes (mapAfter steps) q → ¬ q.Same p) :
    LastMade (steps ++ [step]) p := by
  obtain ⟨before, maker, after, rfl, hmaker, hlater⟩ := h
  refine ⟨before, maker, after ++ [step], by simp, hmaker, fun front later back heq => ?_⟩
  rcases List.eq_nil_or_concat' back with rfl | ⟨back, last, rfl⟩
  · obtain ⟨rfl, hlast⟩ := List.append_inj' heq rfl
    obtain rfl := (List.cons.inj hlast).1
    exact hstep
  · rw [← List.cons_append, ← List.append_assoc] at heq
    exact hlater front later back (List.append_inj' heq rfl).1

/-- what is true of the host after steps from the empty one -/
structure Tracks (steps : List (FileStep Path)) (s : Memory) : Prop where
  represents : Represents s (mapAfter steps)
  keys : s.files.Pairwise fun f g => ¬ f.1.Same g.1
  spelled : ∀ f ∈ s.files, LastMade steps f.1

theorem Tracks.perform {steps : List (FileStep Path)} {s : Memory} (h : Tracks steps s)
    (step : FileStep Path) : Tracks (steps ++ [step]) (Memory.perform step s).2 := by
  have hmap : mapAfter (steps ++ [step]) =
      (FileMap.perform (step.named) (mapAfter steps)).2 := by
    unfold mapAfter
    rw [List.map_append, List.map_singleton, runs_concat]
  have hkeys := Memory.pairwise_perform h.keys step
  refine ⟨?_, hkeys, fun f hf => ?_⟩
  · rw [hmap]
    exact (h.represents.perform step).2
  · have hstored := Memory.stored?_of_mem hkeys hf
    rcases h.represents.stored?_perform hstored with hmade | ⟨⟨old, hold⟩, hother⟩
    · exact ⟨steps, step, [], rfl, hmade, fun front later back heq => by simp at heq⟩
    · exact (h.spelled _ (List.mem_of_find?_eq_some hold)).concat hother

theorem tracks_runs (steps : List (FileStep Path)) :
    Tracks steps (runs Memory.perform steps .empty).2 := by
  induction steps using List.reverseRecOn with
  | nil => exact ⟨.empty, .nil, fun f hf => nomatch hf⟩
  | append_singleton steps step ih =>
    rw [runs_concat]
    exact ih.perform step

theorem Represents.answers {s : Memory} {m : FileMap} (h : Represents s m)
    (steps : List (FileStep Path)) :
    (runs Memory.perform steps s).1.map (·.mapError (·.kind.shape)) =
      (runs FileMap.perform (steps.map .named) m).1 := by
  induction steps generalizing s m with
  | nil => rfl
  | cons step steps ih =>
    obtain ⟨hanswer, hnext⟩ := h.perform step
    exact congrArg₂ List.cons hanswer (ih hnext)

/-- **The files in memory are a finite map on components.**  Every run from the empty host gets the
answers of the map, failures by what went wrong, and leaves its files; the stored keys are different
paths, each spelled as in the step that last made its entry; a step that fails changes nothing; and
runs that differ in the spelling of paths only get the same answers and leave the same files. -/
theorem runs_refine_map (steps : List (FileStep Path)) :
    let memory := runs Memory.perform steps .empty
    let map := runs FileMap.perform (steps.map .named) .empty
    memory.1.map (·.mapError (·.kind.shape)) = map.1 ∧
    (∀ k, contents memory.2.files k = map.2.files.lookup k) ∧
    memory.2.files.Pairwise (fun f g => ¬ f.1.Same g.1) ∧
    (∀ f ∈ memory.2.files, LastMade steps f.1) ∧
    (∀ step e, (Memory.perform step memory.2).1 = .error e →
      (Memory.perform step memory.2).2 = memory.2) ∧
    ∀ steps' : List (FileStep Path), steps'.map FileStep.named = steps.map FileStep.named →
      let memory' := runs Memory.perform steps' .empty
      memory'.1.map (·.mapError (·.kind.shape)) = memory.1.map (·.mapError (·.kind.shape)) ∧
        contents memory'.2.files = contents memory.2.files := by
  intro memory map
  have htracks := tracks_runs steps
  refine ⟨Represents.empty.answers steps, congrFun htracks.represents.files, htracks.keys,
    htracks.spelled, fun step e => Memory.perform_error, fun steps' hsame => ⟨?_, ?_⟩⟩
  · rw [Represents.empty.answers steps', hsame, ← Represents.empty.answers steps]
  · have hmap : mapAfter steps' = mapAfter steps := by
      unfold mapAfter
      rw [hsame]
    rw [(tracks_runs steps').represents.files, hmap, ← htracks.represents.files]

/-- writing over a file keeps the key, renaming it to itself does not -/
example : (runs Memory.perform [.add ⟨"a//b"⟩ [1], .create ⟨"/a/b"⟩ [[2], [3]]] .empty).2.files =
      [(⟨"a//b"⟩, [2, 3])] ∧
    (runs Memory.perform [.add ⟨"a//b"⟩ [1], .rename ⟨"a/b"⟩ ⟨"/a/b"⟩] .empty).2.files =
      [(⟨"/a/b"⟩, [1])] := by
  decide

end CommentFree
