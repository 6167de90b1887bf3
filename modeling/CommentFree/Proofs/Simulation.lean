import CommentFree.Session

/-!
# One session on two hosts

A session touches its host through a few operations, and those on files at two paths only, the file's
and the copy's.  So if two hosts agree on these operations (`Agree`), each from states that
correspond, then they agree on the whole session (`Agree.stripFile`), whatever else there is to
their states.  The hosts may be different ones, or one and the same in two states.

`Simulates` is what it means to agree: from corresponding states the same value or corresponding
failures, and corresponding states again.  It goes through `bind`, so each stage of a session follows
from its operations.
-/

namespace CommentFree

/-- what a program returns and the state it leaves -/
def outcome {σ α : Type} (x : ExceptT Failure (StateM σ) α) (s : σ) : Except Failure α × σ :=
  StateT.run (ExceptT.run x) s

/-- the same value, or failures that correspond -/
inductive Matches (A : Failure → Failure → Prop) {α : Type} :
    Except Failure α → Except Failure α → Prop
  | ok (a : α) : Matches A (.ok a) (.ok a)
  | error {e f : Failure} (h : A e f) : Matches A (.error e) (.error f)

theorem Matches.eq {α : Type} {r r' : Except Failure α} (h : Matches Eq r r') : r = r' := by
  cases h with
  | ok a => rfl
  | error h => rw [h]

/-- two programs that agree as long as their states correspond -/
def Simulates {σ τ α : Type} (R : σ → τ → Prop) (A : Failure → Failure → Prop)
    (x : ExceptT Failure (StateM σ) α) (y : ExceptT Failure (StateM τ) α) : Prop :=
  ∀ s t, R s t → Matches A (outcome x s).1 (outcome y t).1 ∧ R (outcome x s).2 (outcome y t).2

namespace Simulates

variable {σ τ α β : Type} {R : σ → τ → Prop} {A : Failure → Failure → Prop}
  {x : ExceptT Failure (StateM σ) α} {y : ExceptT Failure (StateM τ) α}

theorem pure (a : α) :
    Simulates R A (pure a : ExceptT Failure (StateM σ) α) (pure a : ExceptT Failure (StateM τ) α) := by
  intro s t h
  exact ⟨.ok a, h⟩

theorem throw {e f : Failure} (hA : A e f) :
    Simulates R A (throw e : ExceptT Failure (StateM σ) α)
      (throw f : ExceptT Failure (StateM τ) α) := by
  intro s t h
  exact ⟨.error hA, h⟩

theorem bind (hx : Simulates R A x y) {f : α → ExceptT Failure (StateM σ) β}
    {g : α → ExceptT Failure (StateM τ) β} (hf : ∀ a, Simulates R A (f a) (g a)) :
    Simulates R A (x >>= f) (y >>= g) := by
  intro s t h
  obtain ⟨hresult, hstate⟩ := hx s t h
  show Matches A (ExceptT.bindCont f (outcome x s).1 (outcome x s).2).1
      (ExceptT.bindCont g (outcome y t).1 (outcome y t).2).1 ∧
    R (ExceptT.bindCont f (outcome x s).1 (outcome x s).2).2
      (ExceptT.bindCont g (outcome y t).1 (outcome y t).2).2
  generalize outcome x s = r at hresult hstate
  generalize outcome y t = r' at hresult hstate
  obtain ⟨r, s'⟩ := r
  obtain ⟨r', t'⟩ := r'
  cases hresult with
  | ok a => exact hf a s' t' hstate
  | error hA => exact ⟨.error hA, hstate⟩

theorem inContext (hx : Simulates R A x y) (context : String)
    (hcontext : ∀ e f, A e f → A (e.withContext context) (f.withContext context)) :
    Simulates R A (inContext context x) (inContext context y) := by
  intro s t h
  obtain ⟨hresult, hstate⟩ := hx s t h
  refine ⟨?_, hstate⟩
  show Matches A ((outcome x s).1.mapError (·.withContext context))
    ((outcome y t).1.mapError (·.withContext context))
  generalize outcome x s = r at hresult
  generalize outcome y t = r' at hresult
  obtain ⟨r, s'⟩ := r
  obtain ⟨r', t'⟩ := r'
  cases hresult with
  | ok a => exact .ok a
  | error hA => exact .error (hcontext _ _ hA)

end Simulates

/-- two hosts agree on all that a session does with a file and its copy -/
structure Agree {σ τ : Type} [Host (StateM σ)] [Host (StateM τ)] (R : σ → τ → Prop)
    (A : Failure → Failure → Prop) (path copy : Path) : Prop where
  refl : ∀ e, A e e
  withContext : ∀ context e f, A e f → A (e.withContext context) (f.withContext context)
  load : Simulates R A (Host.load path) (Host.load path)
  create : ∀ content, Simulates R A (Host.create copy content) (Host.create copy content)
  rename : Simulates R A (Host.rename copy path) (Host.rename copy path)
  remove : Simulates R A (Host.remove copy) (Host.remove copy)
  print : ∀ text, Simulates R A (Host.print text) (Host.print text)
  readLine : Simulates R A Host.readLine Host.readLine
  showsColor : Simulates R A (ExceptT.lift Host.showsColor) (ExceptT.lift Host.showsColor)

namespace Agree

variable {σ τ : Type} [Host (StateM σ)] [Host (StateM τ)] {R : σ → τ → Prop}
  {A : Failure → Failure → Prop} {path copy : Path}

theorem readBytes (h : Agree R A path copy) : Simulates R A (readBytes path) (readBytes path) := by
  refine h.load.bind fun loaded => ?_
  cases loaded with
  | ok bytes => exact .pure bytes
  | error e => exact .throw (h.refl _)

theorem readText (h : Agree R A path copy) : Simulates R A (readText path) (readText path) := by
  refine h.readBytes.bind fun bytes => ?_
  cases Utf8.decode? bytes with
  | some text => exact .pure text
  | none => exact .throw (h.refl _)

theorem showChange (h : Agree R A path copy) (config : Config) (color : Diff.ColorMode)
    (source stripped : String) :
    Simulates R A (showChange config color path copy source stripped)
      (showChange config color path copy source stripped) :=
  h.showsColor.bind fun _ => h.print _

theorem decideReplacement (h : Agree R A path copy) (options : StripOptions) :
    Simulates R A (decideReplacement options) (decideReplacement options) := by
  unfold CommentFree.decideReplacement
  cases options.assumeYes with
  | true => exact .pure true
  | false => exact (h.print replaceQuestion).bind fun _ => h.readLine.bind fun _ => .pure _

theorem concludeSession (h : Agree R A path copy) (removed : Nat) (accepted : Bool) :
    Simulates R A (concludeSession path copy removed accepted)
      (concludeSession path copy removed accepted) := by
  cases accepted with
  | true =>
    refine (h.rename.inContext _ (h.withContext _)).bind fun _ => ?_
    exact (h.print _).bind fun _ => .pure _
  | false =>
    refine (h.remove.inContext _ (h.withContext _)).bind fun _ => ?_
    exact (h.print _).bind fun _ => .pure _

/-- **Hosts that agree on the operations agree on the session.** -/
theorem stripFile {config : Config} (h : Agree R A path (path.copyPath config.outputSuffix))
    (options : StripOptions) :
    Simulates R A (stripFile config path options) (stripFile config path options) := by
  unfold CommentFree.stripFile
  cases Language.detect? config.registry path with
  | none => exact .throw (h.refl _)
  | some language =>
    refine (h.readText.inContext _ (h.withContext _)).bind fun source => ?_
    dsimp only
    cases (strip source language).found with
    | false => exact (h.print _).bind fun _ => .pure _
    | true =>
      refine ((h.create _).inContext _ (h.withContext _)).bind fun _ => ?_
      refine (h.showChange config options.color source _).bind fun _ => ?_
      exact (h.decideReplacement options).bind fun accepted => h.concludeSession _ accepted

end Agree

end CommentFree
