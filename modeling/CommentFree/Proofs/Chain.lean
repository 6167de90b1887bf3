import CommentFree.Failure

/-!
# The chain of causes and its root

Below a failure stand its cause, the cause of that, and so on (`Failure.chain`).  Sources are
followed down this chain, but not always to its end: the source of a file failure is the refusal it
tells of, so what was recorded below a file failure is never met.  From a refusal it goes on only if
that carries an error with a source of its own, and then to the last of these.

* `Source.EndsAt s t`    following sources from `s` ends at `t`;
* `Source.endsAt_root`   it does end, and at the root;
* `rootCause_eq`         the root in terms of the chain: that of the first refusal which its kinds
                         tell of, or the last failure;
* `SameKinds`            failures with the same kinds level by level, which the root cannot tell
                         apart but for the contexts of the last one;
* `carried`              a failure as a refusal carries it; their roots say the same.
-/

namespace CommentFree

/-- the refusal that a file failure tells of -/
def FailureKind.refused? : FailureKind → Option IoError
  | file _ error => some error
  | _ => none

namespace Failure

/-! ## the chain -/

def chainFrom (l : Layer) : List Layer → List Failure
  | [] => [⟨l, []⟩]
  | c :: cs => ⟨l, c :: cs⟩ :: chainFrom c cs

/-- the failure, its cause, the cause of that, and so on -/
def chain (f : Failure) : List Failure := chainFrom f.top f.causes

theorem cause?_eq_none_iff {f : Failure} : f.cause? = none ↔ f.causes = [] := by
  unfold cause?
  split <;> simp_all

theorem cause?_eq_some_iff {f g : Failure} : f.cause? = some g ↔ f.causes = g.top :: g.causes := by
  unfold cause?
  split
  · next h => simp [h]
  · next l ls h =>
    rw [h]
    constructor
    · intro hg
      rw [← Option.some.inj hg]
    · intro hg
      obtain ⟨rfl, rfl⟩ := List.cons.inj hg
      rfl

theorem chain_of_last {f : Failure} (h : f.cause? = none) : f.chain = [f] := by
  obtain ⟨top, causes⟩ := f
  obtain rfl : causes = [] := cause?_eq_none_iff.mp h
  rfl

theorem chain_of_cause {f g : Failure} (h : f.cause? = some g) : f.chain = f :: g.chain := by
  obtain ⟨top, causes⟩ := f
  obtain rfl : causes = g.top :: g.causes := cause?_eq_some_iff.mp h
  rfl

/-- a failure is the last one of its chain, or has a cause -/
@[elab_as_elim]
theorem chain_induction {motive : Failure → Prop} (last : ∀ f, f.cause? = none → motive f)
    (next : ∀ f g, f.cause? = some g → motive g → motive f) (f : Failure) : motive f := by
  obtain ⟨top, causes⟩ := f
  induction causes generalizing top with
  | nil => exact last _ rfl
  | cons c cs ih => exact next _ _ rfl (ih c)

theorem mem_chain_self (f : Failure) : f ∈ f.chain := by
  cases h : f.cause? with
  | none => simp [chain_of_last h]
  | some g => simp [chain_of_cause h]

theorem chain_ne_nil (f : Failure) : f.chain ≠ [] := List.ne_nil_of_mem f.mem_chain_self

def last (f : Failure) : Failure := f.chain.getLast f.chain_ne_nil

theorem last_of_last {f : Failure} (h : f.cause? = none) : f.last = f := by
  simp only [last, chain_of_last h, List.getLast_singleton]

theorem last_of_cause {f g : Failure} (h : f.cause? = some g) : f.last = g.last := by
  simp only [last, chain_of_cause h, List.getLast_cons g.chain_ne_nil]

theorem cause?_last (f : Failure) : f.last.cause? = none := by
  induction f using chain_induction with
  | last f h => rw [last_of_last h, h]
  | next f g h ih => rw [last_of_cause h, ih]

/-! ## sources -/

/-- following sources from `s`, as long as there is one, ends at `t` -/
inductive Source.EndsAt : Source → Source → Prop
  | here {s : Source} (h : s.source? = none) : EndsAt s s
  | next {s s' t : Source} (h : s.source? = some s') (hend : EndsAt s' t) : EndsAt s t

namespace Source

theorem EndsAt.source?_eq_none {s t : Source} (h : EndsAt s t) : t.source? = none := by
  induction h with
  | here h => exact h
  | next _ _ ih => exact ih

theorem EndsAt.unique {s t u : Source} (h : EndsAt s t) (h' : EndsAt s u) : t = u := by
  induction h with
  | here h =>
    cases h' with
    | here => rfl
    | next hnext => exact nomatch h.symm.trans hnext
  | next h _ ih =>
    cases h' with
    | here hnone => exact nomatch hnone.symm.trans h
    | next h' hend' =>
      obtain rfl := Option.some.inj (h.symm.trans h')
      exact ih hend'

theorem endsAt_root (s : Source) : EndsAt s s.root := by
  fun_induction root s with
  | case1 s h => exact .here h
  | case2 s t h ih => exact .next h ih

theorem root_of_none {s : Source} (h : s.source? = none) : s.root = s :=
  s.endsAt_root.unique (.here h)

theorem root_of_some {s t : Source} (h : s.source? = some t) : s.root = t.root :=
  s.endsAt_root.unique (.next h t.endsAt_root)

theorem root_foreign (text : String) (sources : List String) :
    (foreign ⟨text, sources⟩).root = foreign ⟨sources.getLastD text, []⟩ := by
  induction sources generalizing text with
  | nil => exact root_of_none rfl
  | cons t sources ih => rw [root_of_some rfl, ih, List.getLastD_cons]

theorem root_io (error : IoError) :
    (io error).root = error.sources.getLast?.elim (io error) fun text => foreign ⟨text, []⟩ := by
  cases h : error.sources with
  | nil => exact root_of_none (congrArg first? h)
  | cons text sources =>
    have hnext : (io error).source? = some (foreign ⟨text, sources⟩) := congrArg first? h
    rw [root_of_some hnext, root_foreign, List.getLast?_cons, List.getLastD_eq_getLast?]
    rfl

theorem root_io_ne_failure (error : IoError) (f : Failure) : (io error).root ≠ failure f := by
  rw [root_io]
  cases error.sources.getLast? <;> nofun

end Source

theorem source?_of_refused {f : Failure} {error : IoError} (h : f.kind.refused? = some error) :
    f.source? = some (.io error) := by
  unfold source?
  cases hkind : f.kind <;> simp_all [FailureKind.refused?]

theorem source?_of_not_refused {f : Failure} (h : f.kind.refused? = none) :
    f.source? = f.cause?.map .failure := by
  unfold source?
  cases hkind : f.kind <;> simp_all [FailureKind.refused?]

/-! ## the root -/

theorem rootCause_of_refused {f : Failure} {error : IoError} (h : f.kind.refused? = some error) :
    f.rootCause = (Source.io error).root := Source.root_of_some (source?_of_refused h)

section
variable {f : Failure} (h : f.kind.refused? = none)
include h

theorem rootCause_of_last (hlast : f.cause? = none) : f.rootCause = .failure f := by
  apply Source.root_of_none
  show f.source? = none
  rw [source?_of_not_refused h, hlast, Option.map_none]

theorem rootCause_of_cause {g : Failure} (hcause : f.cause? = some g) :
    f.rootCause = g.rootCause := by
  apply Source.root_of_some
  show f.source? = some (.failure g)
  rw [source?_of_not_refused h, hcause, Option.map_some]

end

/-- the refusal that comes first in the chain -/
def firstRefusal? (f : Failure) : Option IoError :=
  (f.chain.map kind).findSome? FailureKind.refused?

theorem rootCause_eq (f : Failure) :
    f.rootCause = f.firstRefusal?.elim (.failure f.last) fun error => (Source.io error).root := by
  unfold firstRefusal?
  induction f using chain_induction with
  | last f hlast =>
    rw [chain_of_last hlast, last_of_last hlast, List.map_singleton, List.findSome?_cons]
    cases h : f.kind.refused? with
    | some error => exact rootCause_of_refused h
    | none => exact rootCause_of_last h hlast
  | next f g hcause ih =>
    rw [chain_of_cause hcause, last_of_cause hcause, List.map_cons, List.findSome?_cons]
    cases h : f.kind.refused? with
    | some error => exact rootCause_of_refused h
    | none => rw [rootCause_of_cause h hcause, ih]

theorem firstRefusal?_eq_some {f e : Failure} {before after : List Failure} {error : IoError}
    (hchain : f.chain = before ++ e :: after) (hbefore : ∀ b ∈ before, b.kind.refused? = none)
    (he : e.kind.refused? = some error) : f.firstRefusal? = some error := by
  unfold firstRefusal?
  rw [List.findSome?_eq_some_iff]
  refine ⟨before.map kind, e.kind, after.map kind, ?_, he, ?_⟩
  · rw [hchain, List.map_append, List.map_cons]
  · intro k hk
    obtain ⟨b, hb, rfl⟩ := List.mem_map.mp hk
    exact hbefore b hb

theorem firstRefusal?_eq_none {f : Failure} (h : ∀ e ∈ f.chain, e.kind.refused? = none) :
    f.firstRefusal? = none := by
  unfold firstRefusal?
  rw [List.findSome?_eq_none_iff]
  intro k hk
  obtain ⟨e, he, rfl⟩ := List.mem_map.mp hk
  exact h e he

section
variable {f : Failure}

theorem rootCause_of_first {e : Failure} {before after : List Failure} {error : IoError}
    (hchain : f.chain = before ++ e :: after) (hbefore : ∀ b ∈ before, b.kind.refused? = none)
    (he : e.kind.refused? = some error) : f.rootCause = (Source.io error).root := by
  rw [rootCause_eq, firstRefusal?_eq_some hchain hbefore he]
  rfl

theorem rootCause_of_notMem (h : ∀ e ∈ f.chain, e.kind.refused? = none) :
    f.rootCause = .failure f.last := by
  rw [rootCause_eq, firstRefusal?_eq_none h]
  rfl

end

/-! ## contexts -/

/-- the same went wrong level by level, in whatever contexts -/
def SameKinds (f g : Failure) : Prop := f.chain.map kind = g.chain.map kind

theorem SameKinds.kind_last {f g : Failure} (h : f.SameKinds g) : f.last.kind = g.last.kind := by
  have hlast : (f.chain.map kind).getLast? = (g.chain.map kind).getLast? := congrArg _ h
  rw [List.getLast?_map, List.getLast?_map, List.getLast?_eq_some_getLast f.chain_ne_nil,
    List.getLast?_eq_some_getLast g.chain_ne_nil] at hlast
  exact Option.some.inj hlast

theorem SameKinds.firstRefusal?_eq {f g : Failure} (h : f.SameKinds g) :
    g.firstRefusal? = f.firstRefusal? := congrArg (List.findSome? _) h.symm

/-- the last failures are the same but for their contexts -/
theorem SameKinds.last_eq {f g : Failure} (h : f.SameKinds g) :
    g.last = ⟨⟨f.last.kind, g.last.context⟩, []⟩ := by
  rw [h.kind_last, ← cause?_eq_none_iff.mp g.cause?_last]
  rfl

theorem SameKinds.rootCause_of_failure {f g e : Failure} (h : f.SameKinds g)
    (hroot : f.rootCause = .failure e) :
    g.rootCause = .failure ⟨⟨e.kind, g.last.context⟩, []⟩ := by
  rw [rootCause_eq] at hroot ⊢
  rw [h.firstRefusal?_eq]
  cases hfirst : f.firstRefusal? with
  | some error =>
    rw [hfirst] at hroot
    exact absurd hroot (Source.root_io_ne_failure error e)
  | none =>
    rw [hfirst] at hroot
    obtain rfl : f.last = e := Source.failure.inj hroot
    exact congrArg Source.failure h.last_eq

theorem SameKinds.rootCause_of_not_failure {f g : Failure} (h : f.SameKinds g)
    (hroot : ∀ e, f.rootCause ≠ .failure e) : g.rootCause = f.rootCause := by
  have heq := rootCause_eq f
  rw [rootCause_eq, h.firstRefusal?_eq]
  cases hfirst : f.firstRefusal? with
  | some error =>
    rw [hfirst] at heq
    exact heq.symm
  | none =>
    rw [hfirst] at heq
    exact absurd heq (hroot f.last)

/-- a file failure half way down, with a cause of its own -/
def buried : Failure :=
  (message "outer").causedBy <| ((of (.config "inner")).withContext "loading").causedBy <|
    (file "a.c" (.system .denied)).causedBy (message "below")

def worded (outer inner : List String) : Failure :=
  ⟨⟨.message "outer", outer⟩, [⟨.config "inner", inner⟩]⟩

/-- the sources met below a source, one after the other -/
def Source.behind (s : Source) : List Source :=
  match _h : s.source? with
  | none => []
  | some t => t :: t.behind
termination_by s.reach
decreasing_by exact reach_lt _h

theorem Source.text_root (s : Source) :
    s.root.text = (s.behind.map Source.text).getLastD s.text := by
  fun_induction behind s with
  | case1 s h => rw [root_of_none h]; rfl
  | case2 s t h ih => rw [root_of_some h, ih, List.map_cons, List.getLastD_cons]

/-- a failure as a refusal carries it -/
def carried (f : Failure) : Foreign := ⟨f.display, (Source.failure f).behind.map Source.text⟩

theorem rootCause_carried (path : String) (refusal : Refusal) (f : Failure) :
    (file path (.carrying refusal f.carried)).rootCause.text = f.rootCause.text := by
  have hroot : (file path (.carrying refusal f.carried)).rootCause =
      (Source.io (.carrying refusal f.carried)).root := rootCause_of_refused rfl
  have hsources : (IoError.carrying refusal f.carried).sources =
      (Source.failure f).behind.map Source.text := rfl
  have htext : f.rootCause.text = ((Source.failure f).behind.map Source.text).getLastD f.display :=
    Source.text_root _
  rw [hroot, Source.root_io, hsources, htext, List.getLastD_eq_getLast?]
  cases ((Source.failure f).behind.map Source.text).getLast? <;> rfl

end Failure

end CommentFree
