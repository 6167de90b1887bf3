import CommentFree.Proofs.Path
import Mathlib.Data.List.Induction

/-!
# Plain paths

A path is plain when it is nothing but names with one slash between each two of them.  Its names are
its components then, and a suffix without slashes makes its copy a plain path too, in the same
directory and with another name (`Plain.siblings_copyPath`).
-/

namespace CommentFree.Path

def names (p : Path) : List (List Char) := segments p.text.toList

/-- a name that stands for an entry of a directory -/
structure PlainName (name : List Char) : Prop where
  ne_nil : name ≠ []
  ne_current : name ≠ ['.']
  ne_parent : name ≠ ['.', '.']
  noZero : '\x00' ∉ name

def Plain (p : Path) : Prop := ∀ name ∈ p.names, PlainName name

/-- a suffix that keeps a name in its directory -/
structure PlainSuffix (suffix : String) : Prop where
  ne_nil : suffix.toList ≠ []
  noSlash : '/' ∉ suffix.toList
  noZero : '\x00' ∉ suffix.toList

/-! ## the text of a plain path -/

theorem mem_segments_of_mem {text : List Char} {c : Char} (hc : c ∈ text) :
    c = '/' ∨ ∃ s ∈ segments text, c ∈ s := by
  induction text with
  | nil => cases hc
  | cons d text ih =>
    by_cases hd : d = '/'
    · subst hd
      rw [segments_slash]
      rcases List.mem_cons.mp hc with rfl | hc
      · exact .inl rfl
      · exact (ih hc).imp_right fun ⟨s, hs, hcs⟩ => ⟨s, List.mem_cons_of_mem _ hs, hcs⟩
    · obtain ⟨s, ss, hs⟩ := List.exists_cons_of_ne_nil (segments_ne_nil text)
      rw [hs] at ih
      rw [segments_cons hd hs]
      rcases List.mem_cons.mp hc with rfl | hc
      · exact .inr ⟨c :: s, List.mem_cons_self, List.mem_cons_self⟩
      · rcases ih hc with hc | ⟨s', hs', hcs⟩
        · exact .inl hc
        · rcases List.mem_cons.mp hs' with rfl | hs'
          · exact .inr ⟨d :: s', List.mem_cons_self, List.mem_cons_of_mem _ hcs⟩
          · exact .inr ⟨s', List.mem_cons_of_mem _ hs', hcs⟩

/-- the last part of a text, and what stands before it -/
theorem exists_front (text : List Char) :
    '/' ∉ text ∧ segments text = [text] ∨
      ∃ front name, text = front ++ '/' :: name ∧ '/' ∉ name ∧
        segments text = segments front ++ [name] := by
  by_cases hslash : '/' ∈ text
  · obtain ⟨back, rest, hrev, hback⟩ := List.eq_append_cons_of_mem (List.mem_reverse.mpr hslash)
    have htext : text = rest.reverse ++ '/' :: back.reverse := by
      rw [← List.reverse_reverse text, hrev]
      simp
    have hback' : '/' ∉ back.reverse := by rwa [List.mem_reverse]
    refine .inr ⟨rest.reverse, back.reverse, htext, hback', ?_⟩
    rw [htext, segments_append_slash, segments_of_notMem hback']
  · exact .inl ⟨hslash, segments_of_notMem hslash⟩

namespace Plain

variable {p : Path}

theorem components (h : p.Plain) : p.components = p.names.map .entry := by
  have hfilter : p.names.filter (· ≠ []) = p.names :=
    List.filter_eq_self.mpr fun name hname => by simpa using (h name hname).ne_nil
  unfold Path.components componentsOf
  show (p.names.filter (· ≠ [])).map _ = _
  rw [hfilter]
  refine List.map_congr_left fun name hname => ?_
  exact Component.ofSegment_eq_entry_iff.mpr
    ⟨rfl, (h name hname).ne_current, (h name hname).ne_parent⟩

theorem noZero (h : p.Plain) : '\x00' ∉ p.text.toList := by
  intro hzero
  rcases mem_segments_of_mem hzero with hslash | ⟨name, hname, hzero⟩
  · exact absurd hslash (by decide)
  · exact (h name hname).noZero hzero

theorem nil_notMem (h : p.Plain) : [] ∉ segments p.text.toList := fun hnil => (h [] hnil).ne_nil rfl

theorem fromRoot (h : p.Plain) : p.fromRoot = false := by
  unfold Path.fromRoot
  rw [decide_eq_false_iff_not]
  intro hhead
  obtain ⟨rest, hrest⟩ := List.head?_eq_some_iff.mp hhead
  refine h.nil_notMem ?_
  rw [hrest, segments_slash]
  exact List.mem_cons_self

end Plain

theorem getLast?_ne_slash {text : List Char} (h : [] ∉ segments text) :
    text.getLast? ≠ some '/' := by
  intro hlast
  obtain ⟨front, rfl⟩ := List.getLast?_eq_some_iff.mp hlast
  refine h ?_
  rw [segments_append_slash]
  exact List.mem_append_right _ List.mem_cons_self

/-! ## the name of the copy -/

theorem length_suffixed (name suffix : List Char) :
    (suffixed name suffix).length = name.length + suffix.length := by
  unfold suffixed
  cases hsplit : splitExtension? name with
  | none => exact List.length_append
  | some halves =>
    obtain ⟨stem, ext⟩ := halves
    rw [(eq_of_splitExtension? hsplit).1]
    simp only [List.length_append, List.length_cons]
    omega

theorem mem_of_mem_suffixed {name suffix : List Char} {c : Char} (hc : c ∈ suffixed name suffix) :
    c ∈ name ∨ c ∈ suffix := by
  unfold suffixed at hc
  cases hsplit : splitExtension? name with
  | none =>
    rw [hsplit] at hc
    exact List.mem_append.mp hc
  | some halves =>
    obtain ⟨stem, ext⟩ := halves
    rw [hsplit] at hc
    rw [(eq_of_splitExtension? hsplit).1]
    simp only [List.mem_append, List.mem_cons] at hc ⊢
    rcases hc with (hc | hc) | hc | hc
    · exact .inl (.inl hc)
    · exact .inr hc
    · exact .inl (.inr (.inl hc))
    · exact .inl (.inr (.inr hc))

theorem splitExtension?_singleton (c : Char) : splitExtension? [c] = none := by
  cases hsplit : splitExtension? [c] with
  | none => rfl
  | some halves =>
    obtain ⟨hc, hstem⟩ := eq_of_splitExtension? hsplit
    have hlength := congrArg List.length hc
    have hpos := List.length_pos_iff.mpr hstem
    rw [List.length_singleton, List.length_append, List.length_cons] at hlength
    omega

theorem suffixed_ne_self (name : List Char) {suffix : List Char} (hsuffix : suffix ≠ []) :
    suffixed name suffix ≠ name := by
  intro heq
  have hlength := length_suffixed name suffix
  have hmore := List.length_pos_iff.mpr hsuffix
  rw [heq] at hlength
  omega

theorem suffixed_ne {name suffix : List Char} (hname : name ≠ []) (hdot : name ≠ ['.'])
    (hsuffix : suffix ≠ []) : suffixed name suffix ≠ [] ∧ suffixed name suffix ≠ ['.'] ∧
      suffixed name suffix ≠ ['.', '.'] := by
  have hlength := length_suffixed name suffix
  have hone := List.length_pos_iff.mpr hname
  have hmore := List.length_pos_iff.mpr hsuffix
  refine ⟨fun hnil => ?_, fun hcurrent => ?_, fun hparent => ?_⟩
  · rw [hnil, List.length_nil] at hlength
    omega
  · rw [hcurrent, List.length_singleton] at hlength
    omega
  · -- a name of one character has no extension, so it stands in front
    have hshort : name.length = 1 := by
      rw [hparent, List.length_cons, List.length_singleton] at hlength
      omega
    obtain ⟨c, rfl⟩ := List.length_eq_one_iff.mp hshort
    unfold suffixed at hparent
    rw [splitExtension?_singleton] at hparent
    exact hdot (by rw [(List.cons.inj hparent).1])

theorem PlainName.suffixed {name : List Char} {suffix : String} (h : PlainName name)
    (hsuffix : PlainSuffix suffix) : PlainName (suffixed name suffix.toList) := by
  obtain ⟨hnil, hcurrent, hparent⟩ := suffixed_ne h.ne_nil h.ne_current hsuffix.ne_nil
  refine ⟨hnil, hcurrent, hparent, fun hzero => ?_⟩
  rcases mem_of_mem_suffixed hzero with hzero | hzero
  · exact h.noZero hzero
  · exact hsuffix.noZero hzero

/-! ## the place of the copy -/

/-- what is before the last part, whatever slashes stand between -/
theorem parentText_append {before name : List Char} (hne : name ≠ []) (hdot : name ≠ ['.'])
    (hslash : '/' ∉ name) (hbefore : before.reverse.takeWhile (· ≠ '/') = []) :
    parentText (before ++ name) = (before.reverse.dropWhile (· = '/')).reverse := by
  have hname : ∀ c ∈ name.reverse, decide (c ≠ '/') = true := by
    intro c hc
    have hother : c ≠ '/' := fun h => hslash (h ▸ List.mem_reverse.mp hc)
    exact decide_eq_true hother
  have hstart : (name.reverse ++ before.reverse).dropWhile (· = '/') =
      name.reverse ++ before.reverse := by
    obtain ⟨c, cs, hcons⟩ := List.exists_cons_of_ne_nil (List.reverse_ne_nil_iff.mpr hne)
    have hc := hname c (hcons ▸ List.mem_cons_self)
    rw [hcons, List.cons_append, List.dropWhile_cons_of_neg (by simpa using hc)]
  have hrest : before.reverse.dropWhile (· ≠ '/') = before.reverse := by
    have hsplit := List.takeWhile_append_dropWhile (p := (· ≠ '/')) (l := before.reverse)
    rwa [hbefore, List.nil_append] at hsplit
  have hcut : cutLast (before ++ name).reverse =
      (name.reverse, before.reverse.dropWhile (· = '/')) := by
    unfold cutLast
    dsimp only
    rw [List.reverse_append, hstart, List.takeWhile_append_of_pos hname,
      List.dropWhile_append_of_pos hname, hbefore, hrest, List.append_nil]
  unfold parentText
  rw [parentRev, hcut, if_neg]
  intro hcurrent
  exact hdot (List.reverse_eq_iff.mp hcurrent)

theorem parentText_of_notMem {name : List Char} (hne : name ≠ []) (hdot : name ≠ ['.'])
    (hslash : '/' ∉ name) : parentText name = [] :=
  @parentText_append [] name hne hdot hslash rfl

theorem parentText_append_slash {front name : List Char} (hne : name ≠ []) (hdot : name ≠ ['.'])
    (hslash : '/' ∉ name) (hfront : front.getLast? ≠ some '/') :
    parentText (front ++ '/' :: name) = front := by
  have hback : front.reverse.dropWhile (· = '/') = front.reverse := by
    cases hf : front.reverse with
    | nil => rfl
    | cons c cs =>
      have hc : c ≠ '/' := by
        rintro rfl
        refine hfront ?_
        rw [← List.head?_reverse, hf]
        rfl
      exact List.dropWhile_cons_of_neg (by simpa using hc)
  have hbefore : (front ++ ['/']).reverse = '/' :: front.reverse := by simp
  have hsplit : front ++ '/' :: name = (front ++ ['/']) ++ name := by simp
  rw [hsplit, parentText_append hne hdot hslash (by rw [hbefore]; rfl), hbefore,
    List.dropWhile_cons_of_pos (by simp), hback, List.reverse_reverse]

theorem push_nil {name : List Char} (h : '/' ∉ name) : push [] name = name := by
  have hhead : name.head? ≠ some '/' := fun hhead => h (List.mem_of_head? hhead)
  unfold push
  rw [if_pos (.inl rfl), if_neg hhead, List.nil_append]

theorem push_of_getLast? {dir name : List Char} (hne : dir ≠ []) (hdir : dir.getLast? ≠ some '/')
    (h : '/' ∉ name) : push dir name = dir ++ '/' :: name := by
  have hhead : name.head? ≠ some '/' := fun hhead => h (List.mem_of_head? hhead)
  unfold push
  rw [if_neg (not_or.mpr ⟨hne, hdir⟩), if_neg hhead]

theorem Plain.fileName? {p : Path} (h : p.Plain) {dir : List (List Char)} {name : List Char}
    (hnames : p.names = dir ++ [name]) : p.fileName? = some name := by
  unfold Path.fileName? lastEntry?
  rw [h.components, hnames, List.map_append, List.reverse_append]
  rfl

theorem Plain.names_copyPath {p : Path} (h : p.Plain) {suffix : String}
    (hsuffix : PlainSuffix suffix) : ∃ dir name, p.names = dir ++ [name] ∧
      (p.copyPath suffix).names = dir ++ [suffixed name suffix.toList] := by
  have hslash : ∀ {name : List Char}, '/' ∉ name → '/' ∉ suffixed name suffix.toList :=
    fun hname hmem => (mem_of_mem_suffixed hmem).elim hname hsuffix.noSlash
  have htext : ∀ {dir : List (List Char)} {name : List Char}, p.names = dir ++ [name] →
      (p.copyPath suffix).text.toList =
        push (parentText p.text.toList) (suffixed name suffix.toList) := by
    intro dir name hnames
    unfold Path.copyPath withFileName
    rw [h.fileName? hnames]
    exact String.toList_ofList
  rcases exists_front p.text.toList with
    ⟨hnone, hsegments⟩ | ⟨front, name, hfront, hname, hsegments⟩
  · have hnames : p.names = [] ++ [p.text.toList] := hsegments
    have hplain := h _ (hnames ▸ List.mem_append_right _ List.mem_cons_self)
    refine ⟨[], _, hnames, ?_⟩
    unfold Path.names
    rw [htext hnames, parentText_of_notMem hplain.ne_nil hplain.ne_current hnone,
      push_nil (hslash hnone), segments_of_notMem (hslash hnone), List.nil_append]
  · have hnames : p.names = segments front ++ [name] := hsegments
    have hplain := h name (hnames ▸ List.mem_append_right _ List.mem_cons_self)
    have hnil : [] ∉ segments front := by
      intro hmem
      refine h.nil_notMem ?_
      rw [hsegments]
      exact List.mem_append_left _ hmem
    have hfront' : front ≠ [] := by
      rintro rfl
      exact hnil List.mem_cons_self
    refine ⟨segments front, name, hnames, ?_⟩
    unfold Path.names
    rw [htext hnames, hfront, parentText_append_slash hplain.ne_nil hplain.ne_current hname
        (getLast?_ne_slash hnil), push_of_getLast? hfront' (getLast?_ne_slash hnil) (hslash hname),
      segments_append_slash, segments_of_notMem (hslash hname)]

/-- two plain paths to different entries of one directory -/
structure Siblings (dir : List (List Char)) (p q : Path) : Prop where
  plain : ∀ r ∈ [p, q], r.Plain
  names : ∀ r ∈ [p, q], ∃ name, r.names = dir ++ [name]
  ne : p.names ≠ q.names

theorem siblings {dir : List (List Char)} {name other : List Char} {p q : Path} (hp : p.Plain)
    (hother : PlainName other) (hpnames : p.names = dir ++ [name])
    (hqnames : q.names = dir ++ [other]) (hne : name ≠ other) : Siblings dir p q := by
  have hq : q.Plain := by
    intro r hr
    rw [hqnames] at hr
    rcases List.mem_append.mp hr with hdir | hlast
    · exact hp r (hpnames ▸ List.mem_append_left _ hdir)
    · rw [List.mem_singleton.mp hlast]
      exact hother
  refine ⟨fun r hr => ?_, fun r hr => ?_, ?_⟩
  · rcases List.mem_cons.mp hr with rfl | hr
    · exact hp
    · rwa [List.mem_singleton.mp hr]
  · rcases List.mem_cons.mp hr with rfl | hr
    · exact ⟨name, hpnames⟩
    · rw [List.mem_singleton.mp hr]
      exact ⟨other, hqnames⟩
  · rw [hpnames, hqnames]
    simpa using hne

/-- the copy of a plain path is plain, in the same directory and with another name -/
theorem Plain.siblings_copyPath {p : Path} (h : p.Plain) {suffix : String}
    (hsuffix : PlainSuffix suffix) : Siblings p.names.dropLast p (p.copyPath suffix) := by
  obtain ⟨dir, name, hnames, hcopy⟩ := h.names_copyPath hsuffix
  have hplain := h name (hnames ▸ List.mem_append_right _ List.mem_cons_self)
  have hne : name ≠ suffixed name suffix.toList := (suffixed_ne_self name hsuffix.ne_nil).symm
  have hdir : p.names.dropLast = dir := by rw [hnames, List.dropLast_concat]
  rw [hdir]
  exact siblings h (hplain.suffixed hsuffix) hnames hcopy hne

end CommentFree.Path
