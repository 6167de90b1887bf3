import CommentFree.Host.Memory
import Mathlib.Logic.Function.Basic

/-!
# The host in memory as a map

Paths that are the `Same` have the same components, so the files in memory are a map from lists of
components to contents (`contents`), whatever the list of entries looks like:

* `contents_bind`, `contents_erase`   the two changes of the list are updates of the map;
* `stored?_bind`, `stored?_erase`       also with the spelling of the paths;
* `exec`                              what an operation returns and leaves behind;
* `exec_bind_ok`, `exec_bind_error`   operations one after the other;
* `exec_bind_read`                    operations that only look;
* `exec_print`, `exec_remove`, ...    each operation of the host.
-/

namespace CommentFree

namespace Memory

/-! ## the map -/

def contents (files : List (Path × List UInt8)) (steps : List Path.Component) :
    Option (List UInt8) :=
  (files.find? fun f => decide (f.1.components = steps)).map (·.2)

theorem lookup?_eq_contents (files : List (Path × List UInt8)) (p : Path) :
    lookup? files p = contents files p.components := rfl

/-- the entry of a file, spelled as it is stored, by the components of its path -/
def stored? (files : List (Path × List UInt8)) (steps : List Path.Component) :
    Option (Path × List UInt8) :=
  files.find? fun f => decide (f.1.components = steps)

/-- how the entry at a path is spelled, or will be if there is none -/
def spelling (files : List (Path × List UInt8)) (p : Path) : Path :=
  ((stored? files p.components).map (·.1)).getD p

theorem contents_eq_stored? (files : List (Path × List UInt8)) (steps : List Path.Component) :
    contents files steps = (stored? files steps).map (·.2) := rfl

theorem stored?_cons (f : Path × List UInt8) (files : List (Path × List UInt8))
    (steps : List Path.Component) :
    stored? (f :: files) steps =
      if f.1.components = steps then some f else stored? files steps := by
  unfold stored?
  rw [List.find?_cons]
  by_cases h : f.1.components = steps
  · rw [decide_eq_true h, if_pos h]
  · rw [decide_eq_false h, if_neg h]

theorem spelling_cons_of_same {f : Path × List UInt8} {p : Path} (h : f.1.Same p)
    (files : List (Path × List UInt8)) : spelling (f :: files) p = f.1 := by
  have h' : f.1.components = p.components := h
  unfold spelling
  rw [stored?_cons, if_pos h']
  rfl

theorem spelling_cons_of_not_same {f : Path × List UInt8} {p : Path} (h : ¬ f.1.Same p)
    (files : List (Path × List UInt8)) : spelling (f :: files) p = spelling files p := by
  have h' : ¬ f.1.components = p.components := h
  unfold spelling
  rw [stored?_cons, if_neg h']

theorem stored?_bind (files : List (Path × List UInt8)) (p : Path) (content : List UInt8) :
    stored? (bind files p content) =
      Function.update (stored? files) p.components (some (spelling files p, content)) := by
  funext steps
  rw [Function.update_apply]
  induction files with
  | nil =>
    rw [bind, stored?_cons]
    by_cases h : steps = p.components
    · rw [if_pos h, if_pos h.symm]
      rfl
    · rw [if_neg h, if_neg (Ne.symm h)]
  | cons f files ih =>
    rw [bind]
    by_cases hf : f.1.Same p
    · have hf' : f.1.components = p.components := hf
      rw [if_pos hf, stored?_cons, stored?_cons, spelling_cons_of_same hf, hf']
      by_cases h : steps = p.components
      · rw [if_pos h, if_pos h.symm]
      · rw [if_neg h, if_neg (Ne.symm h), if_neg (Ne.symm h)]
    · rw [if_neg hf, stored?_cons, stored?_cons, ih, spelling_cons_of_not_same hf]
      by_cases h : steps = p.components
      · rw [if_pos h, if_pos h, if_neg (h ▸ hf)]
      · rw [if_neg h, if_neg h]

theorem stored?_erase (files : List (Path × List UInt8)) (p : Path) :
    stored? (erase files p) = Function.update (stored? files) p.components none := by
  funext steps
  rw [Function.update_apply]
  induction files with
  | nil =>
    show none = _
    by_cases h : steps = p.components
    · rw [if_pos h]
    · rw [if_neg h]
      rfl
  | cons f files ih =>
    unfold erase at ih ⊢
    by_cases hf : f.1.Same p
    · have hf' : f.1.components = p.components := hf
      rw [List.filter_cons, if_neg (by simp [hf]), ih, stored?_cons, hf']
      by_cases h : steps = p.components
      · rw [if_pos h, if_pos h]
      · rw [if_neg h, if_neg h, if_neg (Ne.symm h)]
    · rw [List.filter_cons, if_pos (by simp [hf]), stored?_cons, stored?_cons, ih]
      by_cases h : steps = p.components
      · rw [if_pos h, if_pos h, if_neg (h ▸ hf)]
      · rw [if_neg h, if_neg h]

theorem contents_bind (files : List (Path × List UInt8)) (p : Path) (content : List UInt8) :
    contents (bind files p content) =
      Function.update (contents files) p.components (some content) := by
  funext steps
  rw [contents_eq_stored?, stored?_bind, Function.update_apply, Function.update_apply]
  by_cases h : steps = p.components
  · rw [if_pos h, if_pos h]
    rfl
  · rw [if_neg h, if_neg h, contents_eq_stored?]

theorem contents_erase (files : List (Path × List UInt8)) (p : Path) :
    contents (erase files p) = Function.update (contents files) p.components none := by
  funext steps
  rw [contents_eq_stored?, stored?_erase, Function.update_apply, Function.update_apply]
  by_cases h : steps = p.components
  · rw [if_pos h, if_pos h]
    rfl
  · rw [if_neg h, if_neg h, contents_eq_stored?]

/-! ## changes of the state -/

def say (s : Memory) (text : String) : Memory := { s with printed := s.printed ++ text }

def store (s : Memory) (p : Path) (content : List UInt8) : Memory :=
  { s with files := bind s.files p content }

def discard (s : Memory) (p : Path) : Memory := { s with files := erase s.files p }

/-! ## running operations -/

def exec {α : Type} (x : ExceptT Failure Run α) (s : Memory) : Except Failure α × Memory :=
  StateT.run (ExceptT.run x) s

variable {α β : Type} {s s' : Memory}

theorem exec_bind_ok {x : ExceptT Failure Run α} {a : α} (h : exec x s = (.ok a, s'))
    (f : α → ExceptT Failure Run β) : exec (x >>= f) s = exec (f a) s' := by
  show ExceptT.bindCont f (exec x s).1 (exec x s).2 = _
  rw [h]
  rfl

theorem exec_bind_error {x : ExceptT Failure Run α} {e : Failure} (h : exec x s = (.error e, s'))
    (f : α → ExceptT Failure Run β) : exec (x >>= f) s = (.error e, s') := by
  show ExceptT.bindCont f (exec x s).1 (exec x s).2 = _
  rw [h]
  rfl

theorem exec_bind_pure (x : ExceptT Failure Run α) (f : α → β) (s : Memory) :
    exec (x >>= fun a => pure (f a)) s = ((exec x s).1.map f, (exec x s).2) := by
  cases h : exec x s with
  | mk result t =>
    cases result with
    | error e => exact exec_bind_error h _
    | ok a => exact exec_bind_ok h _

/-- reads one after the other are a read -/
theorem exec_bind_read {x : ExceptT Failure Run α} {result : Except Failure α}
    (hx : exec x s = (result, s)) {f : α → ExceptT Failure Run β} {g : α → Except Failure β}
    (hf : ∀ a, exec (f a) s = (g a, s)) : exec (x >>= f) s = (result.bind g, s) := by
  cases result with
  | error e => exact exec_bind_error hx f
  | ok a => exact (exec_bind_ok hx f).trans (hf a)

theorem exec_inContext_ok {x : ExceptT Failure Run α} {a : α} (h : exec x s = (.ok a, s'))
    (context : String) : exec (inContext context x) s = (.ok a, s') := by
  show ((exec x s).1.mapError (·.withContext context), (exec x s).2) = _
  rw [h]
  rfl

theorem exec_inContext_error {x : ExceptT Failure Run α} {e : Failure}
    (h : exec x s = (.error e, s')) (context : String) :
    exec (inContext context x) s = (.error (e.withContext context), s') := by
  show ((exec x s).1.mapError (·.withContext context), (exec x s).2) = _
  rw [h]
  rfl

theorem exec_get (s : Memory) : exec get s = (.ok s, s) := rfl

/-! ## the operations of the host -/

theorem exec_showsColor (s : Memory) :
    exec (ExceptT.lift Host.showsColor) s = (.ok s.showsColor, s) := rfl

theorem exec_create (p : Path) (content : List UInt8) (s : Memory) :
    exec (Host.create p content) s = (.ok (), s.store p content) := rfl

theorem exec_print (text : String) (s : Memory) :
    exec (Host.print text) s =
      if s.failPrint then (.error (injected "<stdout>"), s) else (.ok (), s.say text) := by
  obtain ⟨files, printed, input, failPrint, failRename, failRemove, showsColor⟩ := s
  cases failPrint with
  | true => rfl
  | false => rfl

theorem exec_readLine (s : Memory) :
    exec Host.readLine s = (.ok s.input.head?, { s with input := s.input.tail }) := by
  obtain ⟨files, printed, input, failPrint, failRename, failRemove, showsColor⟩ := s
  cases input with
  | nil => rfl
  | cons line rest => rfl

theorem exec_load (p : Path) (s : Memory) :
    exec (Host.load p) s =
      match lookup? s.files p with
      | some content => (.ok (.ok content), s)
      | none => (.error (notFound p), s) := by
  show exec (load p) s = _
  unfold load
  rw [exec_bind_ok (exec_get s)]
  cases lookup? s.files p with
  | none => rfl
  | some content => rfl

theorem exec_remove (p : Path) (s : Memory) :
    exec (Host.remove p) s =
      if s.failRemove then (.error (injected p.text), s)
      else match lookup? s.files p with
        | some _ => (.ok (), s.discard p)
        | none => (.error (notFound p), s) := by
  obtain ⟨files, printed, input, failPrint, failRename, failRemove, showsColor⟩ := s
  show exec (remove p) _ = _
  unfold remove
  rw [exec_bind_ok (exec_get _)]
  cases failRemove with
  | true => rfl
  | false =>
    dsimp only
    cases lookup? files p with
    | none => rfl
    | some content => rfl

theorem exec_rename (source target : Path) (s : Memory) :
    exec (Host.rename source target) s =
      if s.failRename then (.error (injected source.text), s)
      else match lookup? s.files source with
        | some content => (.ok (), (s.discard source).store target content)
        | none => (.error (notFound source), s) := by
  obtain ⟨files, printed, input, failPrint, failRename, failRemove, showsColor⟩ := s
  show exec (rename source target) _ = _
  unfold rename
  rw [exec_bind_ok (exec_get _)]
  cases failRename with
  | true => rfl
  | false =>
    dsimp only
    cases lookup? files source with
    | none => rfl
    | some content => rfl

/-- the text of a file in memory, or why it cannot be read -/
def text (s : Memory) (p : Path) : Except Failure String :=
  match lookup? s.files p with
  | none => .error (notFound p)
  | some content => match Utf8.decode? content with
    | some text => .ok text
    | none => .error (.message ("File is not valid UTF-8: " ++ p.text))

theorem exec_readText (p : Path) (s : Memory) : exec (readText p) s = (s.text p, s) := by
  have hload := exec_load p s
  unfold readText text
  cases h : lookup? s.files p with
  | none =>
    rw [h] at hload
    have hbytes : exec (readBytes p) s = (.error (notFound p), s) := exec_bind_error hload _
    rw [exec_bind_error hbytes]
  | some content =>
    rw [h] at hload
    have hbytes : exec (readBytes p) s = (.ok content, s) := exec_bind_ok hload _
    rw [exec_bind_ok hbytes]
    dsimp only
    cases Utf8.decode? content with
    | none => rfl
    | some text => rfl

end Memory

/-! ## results -/

theorem bind_eq_ok_iff {ε α β : Type} {x : Except ε α} {f : α → Except ε β} {b : β} :
    x.bind f = .ok b ↔ ∃ a, x = .ok a ∧ f a = .ok b := by
  cases x with
  | error e => exact ⟨fun h => (nomatch h), fun ⟨_, h, _⟩ => (nomatch h)⟩
  | ok a => exact ⟨fun h => ⟨a, rfl, h⟩, fun ⟨_, ha, h⟩ => Except.ok.inj ha ▸ h⟩

theorem mapError_eq_ok_iff {ε ε' α : Type} {x : Except ε α} {f : ε → ε'} {a : α} :
    x.mapError f = .ok a ↔ x = .ok a := by
  cases x with
  | error e => exact ⟨fun h => (nomatch h), fun h => (nomatch h)⟩
  | ok b => exact ⟨fun h => congrArg _ (Except.ok.inj h), fun h => congrArg _ (Except.ok.inj h)⟩

/-! ## failures apart from their texts -/

/-- what went wrong, whatever the names and the words -/
inductive FailureShape where
  | file (refusal : Refusal)
  | unsupported
  | config
  | message
  deriving DecidableEq

def FailureKind.shape : FailureKind → FailureShape
  | file _ error => .file error.refusal
  | unsupported _ => .unsupported
  | config _ => .config
  | message _ => .message

end CommentFree
