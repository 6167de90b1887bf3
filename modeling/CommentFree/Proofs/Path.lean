import CommentFree.Path
import Mathlib.Data.List.TakeWhile

/-!
# Texts and components

A path is changed as a text and compared by its components.  Cutting a text at a slash cuts its
components (`componentsOf_append_slash`), and everything else follows from that:

* `componentsOf_cutLast`, `componentsOf_parentRev`   what taking the last part off does;
* `componentsOf_push`                                what putting a text behind a directory does;
* `components_withFileName`                          both together;
* `eq_of_splitExtension?`                            a name is put together from its two halves.
-/

namespace CommentFree.Path

/-! ## slashes -/

theorem segments_ne_nil (text : List Char) : segments text ≠ [] := by
  cases text with
  | nil => simp [segments]
  | cons c cs =>
    rw [segments]
    by_cases hc : c = '/'
    · simp [hc]
    · rw [if_neg hc]
      cases segments cs with
      | nil => simp
      | cons s ss => simp

theorem segments_slash (text : List Char) : segments ('/' :: text) = [] :: segments text := if_pos rfl

theorem segments_cons {c : Char} (hc : c ≠ '/') {text s : List Char} {ss : List (List Char)}
    (h : segments text = s :: ss) : segments (c :: text) = (c :: s) :: ss := by
  rw [segments, if_neg hc, h]

theorem segments_append_slash (a b : List Char) :
    segments (a ++ '/' :: b) = segments a ++ segments b := by
  induction a with
  | nil => exact segments_slash b
  | cons c cs ih =>
    by_cases hc : c = '/'
    · subst hc
      rw [List.cons_append, segments_slash, segments_slash, ih, List.cons_append]
    · obtain ⟨s, ss, hs⟩ := List.exists_cons_of_ne_nil (segments_ne_nil cs)
      rw [hs, List.cons_append] at ih
      rw [List.cons_append, segments_cons hc ih, segments_cons hc hs, List.cons_append]

theorem segments_of_notMem {text : List Char} (h : '/' ∉ text) : segments text = [text] := by
  induction text with
  | nil => rfl
  | cons c cs ih =>
    rw [List.mem_cons, not_or] at h
    exact segments_cons (Ne.symm h.1) (ih h.2)

theorem slash_notMem_of_mem_segments {text s : List Char} (h : s ∈ segments text) : '/' ∉ s := by
  induction text generalizing s with
  | nil =>
    rw [List.mem_singleton.mp h]
    exact List.not_mem_nil
  | cons c cs ih =>
    by_cases hc : c = '/'
    · subst hc
      rw [segments_slash] at h
      rcases List.mem_cons.mp h with rfl | h
      · exact List.not_mem_nil
      · exact ih h
    · obtain ⟨s', ss, hs⟩ := List.exists_cons_of_ne_nil (segments_ne_nil cs)
      rw [segments_cons hc hs] at h
      rw [hs] at ih
      rcases List.mem_cons.mp h with rfl | h
      · rw [List.mem_cons, not_or]
        exact ⟨Ne.symm hc, ih List.mem_cons_self⟩
      · exact ih (List.mem_cons_of_mem s' h)

/-! ## components -/

theorem componentsOf_nil : componentsOf [] = [] := rfl

theorem componentsOf_append_slash (a b : List Char) :
    componentsOf (a ++ '/' :: b) = componentsOf a ++ componentsOf b := by
  unfold componentsOf
  rw [segments_append_slash, List.filter_append, List.map_append]

theorem componentsOf_slash (text : List Char) : componentsOf ('/' :: text) = componentsOf text :=
  componentsOf_append_slash [] text

theorem componentsOf_segment {s : List Char} (hne : s ≠ []) (h : '/' ∉ s) :
    componentsOf s = [.ofSegment s] := by
  unfold componentsOf
  rw [segments_of_notMem h]
  simp [hne]

theorem componentsOf_slashes {slashes : List Char} (h : ∀ c ∈ slashes, c = '/') :
    componentsOf slashes = [] := by
  induction slashes with
  | nil => rfl
  | cons c slashes ih =>
    rw [h c List.mem_cons_self, componentsOf_slash]
    exact ih fun c hc => h c (List.mem_cons_of_mem _ hc)

theorem componentsOf_append_slashes (text : List Char) {slashes : List Char}
    (h : ∀ c ∈ slashes, c = '/') : componentsOf (text ++ slashes) = componentsOf text := by
  cases slashes with
  | nil => rw [List.append_nil]
  | cons c slashes =>
    rw [h c List.mem_cons_self, componentsOf_append_slash,
      componentsOf_slashes fun c hc => h c (List.mem_cons_of_mem _ hc), List.append_nil]

theorem Component.ofSegment_eq_entry_iff {s name : List Char} :
    ofSegment s = .entry name ↔ s = name ∧ s ≠ ['.'] ∧ s ≠ ['.', '.'] := by
  unfold ofSegment
  by_cases h1 : s = ['.']
  · simp [h1]
  · by_cases h2 : s = ['.', '.']
    · simp [h2]
    · simp [h1, h2]

theorem Component.ofSegment_eq_current_iff {s : List Char} : ofSegment s = .current ↔ s = ['.'] := by
  unfold ofSegment
  by_cases h1 : s = ['.']
  · simp [h1]
  · by_cases h2 : s = ['.', '.']
    · simp [h2]
    · simp [h1, h2]

/-- what names in a path look like -/
theorem name_of_mem_componentsOf {text name : List Char} (h : .entry name ∈ componentsOf text) :
    name ≠ [] ∧ '/' ∉ name ∧ name ≠ ['.'] ∧ name ≠ ['.', '.'] := by
  obtain ⟨s, hs, hentry⟩ := List.mem_map.mp h
  obtain ⟨hmem, hne⟩ := List.mem_filter.mp hs
  obtain ⟨rfl, h1, h2⟩ := Component.ofSegment_eq_entry_iff.mp hentry
  exact ⟨of_decide_eq_true hne, slash_notMem_of_mem_segments hmem, h1, h2⟩

/-! ## the last part -/

theorem not_of_dropWhile_eq_cons {f : Char → Bool} {text rest : List Char} {c : Char}
    (h : text.dropWhile f = c :: rest) : f c = false := by
  have hne : text.dropWhile f ≠ [] := by simp [h]
  have hhead := List.head_dropWhile_not f hne
  simpa [h] using hhead

theorem mem_takeWhile_slash {text : List Char} :
    ∀ c ∈ (text.takeWhile (· = '/')).reverse, c = '/' := by
  intro c hc
  have hslash := List.mem_takeWhile_imp (List.mem_reverse.mp hc)
  simpa using hslash

theorem slash_notMem_cutLast (rev : List Char) : '/' ∉ (cutLast rev).1 := by
  intro h
  have hother := List.mem_takeWhile_imp h
  simp at hother

theorem componentsOf_dropSlashes (rev : List Char) :
    componentsOf (rev.dropWhile (· = '/')).reverse = componentsOf rev.reverse := by
  have hrev := congrArg List.reverse (List.takeWhile_append_dropWhile (p := (· = '/')) (l := rev))
  rw [List.reverse_append] at hrev
  rw [← hrev, componentsOf_append_slashes _ mem_takeWhile_slash]

theorem componentsOf_cutLast (rev : List Char) :
    componentsOf rev.reverse =
      componentsOf (cutLast rev).2.reverse ++ componentsOf (cutLast rev).1.reverse := by
  unfold cutLast
  dsimp only
  -- slashes at the end of the text and before the last part do not count
  rw [componentsOf_dropSlashes, ← componentsOf_dropSlashes rev]
  generalize rev.dropWhile (· = '/') = r
  have hr := congrArg List.reverse (List.takeWhile_append_dropWhile (p := (· ≠ '/')) (l := r))
  rw [List.reverse_append] at hr
  cases hd : r.dropWhile (· ≠ '/') with
  | nil =>
    rw [hd, List.reverse_nil, List.nil_append] at hr
    rw [hr]
    rfl
  | cons c more =>
    have hc : c = '/' := by
      have hstop := not_of_dropWhile_eq_cons hd
      simpa using hstop
    rw [hd, hc, List.reverse_cons, List.append_assoc, List.singleton_append] at hr
    rw [← hr, componentsOf_append_slash, hc, List.reverse_cons, componentsOf_append_slash,
      componentsOf_nil, List.append_nil]

theorem cutLast_of_fst_eq_nil {rev : List Char} (h : (cutLast rev).1 = []) : (cutLast rev).2 = [] := by
  unfold cutLast at h ⊢
  dsimp only at h ⊢
  cases hr : rev.dropWhile (· = '/') with
  | nil => rfl
  | cons c more =>
    have hc : c ≠ '/' := by
      have hstop := not_of_dropWhile_eq_cons hr
      simpa using hstop
    rw [hr] at h
    simp [hc] at h

/-! ## the file name -/

theorem lastEntry?_append_current (steps : List Component) :
    lastEntry? (steps ++ [.current]) = lastEntry? steps := by
  unfold lastEntry?
  rw [List.reverse_append, List.reverse_singleton, List.singleton_append,
    List.dropWhile_cons_of_pos (by simp)]

theorem lastEntry?_append_of_ne {steps : List Component} {c : Component} (hc : c ≠ .current)
    {name : List Char} (h : lastEntry? (steps ++ [c]) = some name) : c = .entry name := by
  unfold lastEntry? at h
  rw [List.reverse_append, List.reverse_singleton, List.singleton_append,
    List.dropWhile_cons_of_neg (by simp [hc])] at h
  cases c with
  | current => exact absurd rfl hc
  | parent => exact nomatch h
  | entry n => exact congrArg _ (Option.some.inj h)

/-- the file name, with what stands before it and the steps `.` after it -/
theorem componentsOf_parentRev {rev name : List Char}
    (h : lastEntry? (componentsOf rev.reverse) = some name) :
    ∃ k, componentsOf rev.reverse =
      componentsOf (parentRev rev).reverse ++ .entry name :: List.replicate k .current := by
  -- each step `.` that is taken off is one of the `k`
  fun_induction parentRev rev with
  | case1 rev hdot ih =>
    have hcut := componentsOf_cutLast rev
    have hcurrent : componentsOf ['.'].reverse = [.current] := by decide
    rw [hdot, hcurrent] at hcut
    rw [hcut, lastEntry?_append_current] at h
    obtain ⟨k, hk⟩ := ih h
    refine ⟨k + 1, ?_⟩
    rw [hcut, hk, List.replicate_succ', List.append_assoc, List.cons_append]
  | case2 rev hdot =>
    have hcut := componentsOf_cutLast rev
    by_cases hnil : (cutLast rev).1 = []
    · rw [cutLast_of_fst_eq_nil hnil, hnil] at hcut
      rw [hcut] at h
      exact nomatch h
    · have hslash : '/' ∉ (cutLast rev).1.reverse := by
        rw [List.mem_reverse]
        exact slash_notMem_cutLast rev
      rw [componentsOf_segment (by simpa using hnil) hslash] at hcut
      have hc : Component.ofSegment (cutLast rev).1.reverse ≠ .current := by
        rw [Ne, Component.ofSegment_eq_current_iff, List.reverse_eq_iff]
        exact hdot
      rw [hcut] at h ⊢
      exact ⟨0, by rw [lastEntry?_append_of_ne hc h]; rfl⟩

theorem componentsOf_push (dir name : List Char) :
    componentsOf (push dir name) = componentsOf dir ++ componentsOf name := by
  unfold push
  dsimp only
  have hname : componentsOf (if name.head? = some '/' then name.tail else name) =
      componentsOf name := by
    by_cases h : name.head? = some '/'
    · obtain ⟨rest, rfl⟩ := List.head?_eq_some_iff.mp h
      rw [if_pos h, componentsOf_slash]
      rfl
    · rw [if_neg h]
  by_cases h : dir = [] ∨ dir.getLast? = some '/'
  · rw [if_pos h]
    rcases h with rfl | h
    · exact hname
    · obtain ⟨front, rfl⟩ := List.getLast?_eq_some_iff.mp h
      rw [List.append_assoc, List.singleton_append, componentsOf_append_slash,
        componentsOf_append_slash, hname, componentsOf_nil, List.append_nil]
  · rw [if_neg h, componentsOf_append_slash, hname]

/-- putting another text in the place of the file name keeps what stands before it, and drops the
steps `.` after it -/
theorem components_withFileName {p : Path} {name : List Char} (h : p.fileName? = some name)
    (text : List Char) :
    ∃ (dir : List Component) (k : Nat),
      p.components = dir ++ .entry name :: List.replicate k .current ∧
      (p.withFileName text).components = dir ++ componentsOf text := by
  have hrev : lastEntry? (componentsOf p.text.toList.reverse.reverse) = some name := by
    rw [List.reverse_reverse]
    exact h
  obtain ⟨k, hk⟩ := componentsOf_parentRev hrev
  rw [List.reverse_reverse] at hk
  refine ⟨_, k, hk, ?_⟩
  unfold withFileName components
  rw [h]
  dsimp only
  rw [Option.isSome_some, if_pos rfl, String.toList_ofList, componentsOf_push]
  rfl

theorem eq_of_splitExtension? {name stem ext : List Char}
    (h : splitExtension? name = some (stem, ext)) : name = stem ++ '.' :: ext ∧ stem ≠ [] := by
  unfold splitExtension? at h
  split at h
  · next dot c cs hdrop =>
    obtain ⟨rfl, rfl⟩ := Prod.mk.inj (Option.some.inj h)
    have hdot : dot = '.' := by
      have hstop := not_of_dropWhile_eq_cons hdrop
      simpa using hstop
    have hname := congrArg List.reverse
      (List.takeWhile_append_dropWhile (p := (· ≠ '.')) (l := name.reverse))
    rw [List.reverse_append, List.reverse_reverse, hdrop, hdot, List.reverse_cons,
      List.append_assoc, List.singleton_append] at hname
    exact ⟨hname.symm, by simp⟩
  · exact nomatch h

end CommentFree.Path
