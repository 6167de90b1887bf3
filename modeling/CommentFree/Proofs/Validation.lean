import CommentFree.Config.Document
import Mathlib.Data.List.Forall2

/-!
# Which configurations are accepted, and what becomes of them

Validation looks at extensions as they were written and detection at extensions that all begin with
a dot.  The two see the same: putting a dot in front of an extension changes neither whether it has
anything but dots (`Config.dotsOnly_dotted`) nor what it is without one (`Language.undotted_dotted`).
So what is accepted would be accepted again, and its languages go by the extensions they went by.

* `Language.Usable`, `Config.Usable`   what a configuration needs;
* `Language.Lacks`, `Config.Lacks`     what is told about one that needs something: the first check
                                       that the first language in question does not pass;
* `Language.Respelled`                 a language with other spellings of its extensions.
-/

namespace CommentFree

namespace Language

/-- some extension has more than dots -/
def HasExtension (l : Language) : Prop := ∃ ext ∈ l.extensions, ∃ c ∈ ext.toList, c ≠ '.'

/-- both block delimiters are there, or neither is -/
def PairsBlock (l : Language) : Prop := l.blockStart = "" ↔ l.blockEnd = ""

/-- there are comments of some form -/
def HasComments (l : Language) : Prop := l.lineMark ≠ "" ∨ l.blockStart ≠ ""

structure Usable (l : Language) : Prop where
  extension : l.HasExtension
  block : l.PairsBlock
  comments : l.HasComments

/-- the defect of a language: that of the first check it does not pass -/
inductive Lacks (l : Language) : Config.Defect → Prop
  | extension (h : ¬ l.HasExtension) : Lacks l (.noExtension l.name)
  | block (hext : l.HasExtension) (h : ¬ l.PairsBlock) : Lacks l (.halfBlock l.name)
  | comments (hext : l.HasExtension) (hblock : l.PairsBlock) (h : ¬ l.HasComments) :
      Lacks l (.noDelimiter l.name)

namespace Lacks

variable {l : Language} {d d' : Config.Defect}

theorem not_usable (h : l.Lacks d) : ¬ l.Usable := by
  intro husable
  cases h with
  | extension h => exact h husable.extension
  | block _ h => exact h husable.block
  | comments _ _ h => exact h husable.comments

theorem unique (h : l.Lacks d) (h' : l.Lacks d') : d = d' := by
  cases h with
  | extension h =>
    cases h' with
    | extension => rfl
    | block hext | comments hext => exact absurd hext h
  | block hext h =>
    cases h' with
    | extension h' => exact absurd hext h'
    | block => rfl
    | comments _ hblock => exact absurd hblock h
  | comments hext hblock h =>
    cases h' with
    | extension h' => exact absurd hext h'
    | block _ h' => exact absurd hblock h'
    | comments => rfl

end Lacks

theorem all_dotsOnly_iff (l : Language) :
    l.extensions.all Config.dotsOnly = true ↔ ¬ l.HasExtension := by
  simp [Config.dotsOnly, HasExtension]

theorem checked (l : Language) : Config.languageDefect? l = none ∧ l.Usable ∨
    ∃ d, Config.languageDefect? l = some d ∧ l.Lacks d := by
  have hdots := l.all_dotsOnly_iff
  have hhalf : (l.blockStart = "") ≠ (l.blockEnd = "") ↔ ¬ l.PairsBlock := by
    rw [PairsBlock, Ne, eq_iff_iff]
  have hbare : l.lineMark = "" ∧ l.blockStart = "" ↔ ¬ l.HasComments := by
    simp [HasComments]
  -- a check is made only where those before it are passed
  unfold Config.languageDefect?
  by_cases hext : l.HasExtension
  · have hdots : ¬ l.extensions.all Config.dotsOnly = true := fun h => hdots.mp h hext
    by_cases hblock : l.PairsBlock
    · have hhalf : ¬ (l.blockStart = "") ≠ (l.blockEnd = "") := fun h => hhalf.mp h hblock
      by_cases hcomments : l.HasComments
      · have hbare : ¬ (l.lineMark = "" ∧ l.blockStart = "") := fun h => hbare.mp h hcomments
        rw [if_neg hdots, if_neg hhalf, if_neg hbare]
        exact .inl ⟨rfl, hext, hblock, hcomments⟩
      · rw [if_neg hdots, if_neg hhalf, if_pos (hbare.mpr hcomments)]
        exact .inr ⟨_, rfl, .comments hext hblock hcomments⟩
    · rw [if_neg hdots, if_pos (hhalf.mpr hblock)]
      exact .inr ⟨_, rfl, .block hext hblock⟩
  · rw [if_pos (hdots.mpr hext)]
    exact .inr ⟨_, rfl, .extension hext⟩

theorem languageDefect?_eq_none_iff {l : Language} :
    Config.languageDefect? l = none ↔ l.Usable := by
  rcases l.checked with ⟨hnone, husable⟩ | ⟨d, hsome, hlacks⟩
  · simp [hnone, husable]
  · simp [hsome, hlacks.not_usable]

theorem languageDefect?_eq_some_iff {l : Language} {d : Config.Defect} :
    Config.languageDefect? l = some d ↔ l.Lacks d := by
  rcases l.checked with ⟨hnone, husable⟩ | ⟨d', hsome, hlacks⟩
  · rw [hnone]
    exact ⟨nofun, fun h => absurd husable h.not_usable⟩
  · rw [hsome, Option.some.injEq]
    exact ⟨fun h => h ▸ hlacks, hlacks.unique⟩

/-! ## dots -/

theorem head?_dotted (ext : String) : (dotted ext).toList.head? = some '.' := by
  unfold dotted
  split
  · assumption
  · simp

theorem dotted_of_head? {ext : String} (h : ext.toList.head? = some '.') : dotted ext = ext :=
  if_pos h

theorem undotted_dotted (ext : String) : undotted (dotted ext).toList = undotted ext.toList := by
  by_cases h : ext.toList.head? = some '.'
  · rw [dotted_of_head? h]
  · have htail : (dotted ext).toList.tail = ext.toList := by
      rw [dotted, if_neg h]
      simp
    rw [undotted, if_pos (head?_dotted ext), htail, undotted, if_neg h]

theorem mem_dotted_of_ne {c : Char} (hc : c ≠ '.') (ext : String) :
    c ∈ (dotted ext).toList ↔ c ∈ ext.toList := by
  unfold dotted
  split
  · rfl
  · simp [hc]

/-- the extensions of `l'` are those of `l`, each with a dot in front; all else is the same -/
structure Respelled (l l' : Language) : Prop where
  name : l'.name = l.name
  lineMark : l'.lineMark = l.lineMark
  blockStart : l'.blockStart = l.blockStart
  blockEnd : l'.blockEnd = l.blockEnd
  dots : ∀ ext ∈ l'.extensions, ext.toList.head? = some '.'
  answers : ∀ query, l'.matchesExtension query = l.matchesExtension query

theorem respelled_normalized (l : Language) : l.Respelled l.normalized where
  name := rfl
  lineMark := rfl
  blockStart := rfl
  blockEnd := rfl
  dots := by
    intro ext hext
    obtain ⟨written, -, rfl⟩ := List.mem_map.mp hext
    exact head?_dotted written
  answers := by
    intro query
    unfold matchesExtension normalized
    rw [List.any_map]
    simp only [Function.comp_def, undotted_dotted]

theorem normalized_normalized (l : Language) : l.normalized.normalized = l.normalized := by
  unfold normalized
  simp only [List.map_map, Function.comp_def, dotted_of_head? (head?_dotted _)]

theorem Usable.normalized {l : Language} (h : l.Usable) : l.normalized.Usable where
  extension := by
    obtain ⟨ext, hext, c, hc, hother⟩ := h.extension
    exact ⟨dotted ext, List.mem_map_of_mem hext, c, (mem_dotted_of_ne hother ext).mpr hc, hother⟩
  block := h.block
  comments := h.comments

end Language

namespace Config

structure Usable (c : Config) : Prop where
  suffix : c.outputSuffix ≠ ""
  languages : ∀ l ∈ c.languages, l.Usable

/-- the defect of a configuration: that of the suffix, or that of the first language with one -/
inductive Lacks (c : Config) : Defect → Prop
  | suffix (h : c.outputSuffix = "") : Lacks c .emptySuffix
  | language {before after : List Language} {l : Language} {d : Defect}
      (hsuffix : c.outputSuffix ≠ "") (hlanguages : c.languages = before ++ l :: after)
      (hbefore : ∀ k ∈ before, k.Usable) (h : l.Lacks d) : Lacks c d

theorem defect?_eq_none_iff {c : Config} : c.defect? = none ↔ c.Usable := by
  unfold defect?
  by_cases hsuffix : c.outputSuffix = ""
  · rw [if_pos hsuffix]
    exact ⟨nofun, fun h => absurd hsuffix h.suffix⟩
  · rw [if_neg hsuffix, List.findSome?_eq_none_iff]
    simp only [Language.languageDefect?_eq_none_iff]
    exact ⟨fun h => ⟨hsuffix, h⟩, Usable.languages⟩

theorem defect?_eq_some_iff {c : Config} {d : Defect} : c.defect? = some d ↔ c.Lacks d := by
  unfold defect?
  by_cases hsuffix : c.outputSuffix = ""
  · rw [if_pos hsuffix, Option.some.injEq]
    constructor
    · rintro rfl
      exact .suffix hsuffix
    · intro h
      cases h with
      | suffix => rfl
      | language hother => exact absurd hsuffix hother
  · rw [if_neg hsuffix, List.findSome?_eq_some_iff]
    constructor
    · rintro ⟨before, l, after, hlanguages, hl, hbefore⟩
      exact .language hsuffix hlanguages
        (fun k hk => Language.languageDefect?_eq_none_iff.mp (hbefore k hk))
        (Language.languageDefect?_eq_some_iff.mp hl)
    · intro h
      cases h with
      | suffix h => exact absurd h hsuffix
      | @language before after l _ _ hlanguages hbefore hl =>
        exact ⟨before, l, after, hlanguages, Language.languageDefect?_eq_some_iff.mpr hl,
          fun k hk => Language.languageDefect?_eq_none_iff.mpr (hbefore k hk)⟩

theorem Usable.normalized {c : Config} (h : c.Usable) : c.normalized.Usable where
  suffix := h.suffix
  languages := by
    intro l hl
    obtain ⟨written, hwritten, rfl⟩ := List.mem_map.mp hl
    exact (h.languages written hwritten).normalized

theorem normalized_normalized (c : Config) : c.normalized.normalized = c.normalized := by
  unfold normalized
  simp only [List.map_map, Function.comp_def, Language.normalized_normalized]

theorem accept_eq_ok_iff {c config : Config} :
    c.accept = .ok config ↔ c.Usable ∧ config = c.normalized := by
  rw [← defect?_eq_none_iff]
  unfold accept
  cases c.defect? with
  | none => simp [eq_comm]
  | some d => simp

theorem accept_eq_error_iff {c : Config} {d : Defect} : c.accept = .error d ↔ c.Lacks d := by
  rw [← defect?_eq_some_iff]
  unfold accept
  cases c.defect? with
  | none => simp
  | some d => simp

/-- a text says what is in a configuration, as it is written there -/
def WrittenIn (c : Config) (document : String) : Prop :=
  ∃ entries, Toml.parse document = some entries ∧ decode entries = .ok c

theorem WrittenIn.ofDocument_eq {c : Config} {document : String} (h : c.WrittenIn document) :
    ofDocument document = c.accept.mapError fun d => .of (.config d.message) := by
  obtain ⟨entries, hparse, hdecode⟩ := h
  unfold ofDocument read
  rw [hparse]
  dsimp only
  rw [hdecode]
  show Except.mapError _ (Except.mapError Fault.defect c.accept) = _
  cases c.accept with
  | error d => rfl
  | ok config => rfl

/-- **What is accepted and what is refused.**  Of a configuration that is written in a document all
that decides is whether it is usable; if not, the failure is that of the suffix, or else that of
the first check that the first language in question does not pass.  An accepted configuration is
the one that was written, but that its extensions begin with a dot: languages stand in their order
and go by the same extensions.  It would be accepted again, and as it is. -/
theorem accept_usable (c : Config) :
    (∀ document, c.WrittenIn document →
      ofDocument document = c.accept.mapError fun d => .of (.config d.message)) ∧
    ((∃ config, c.accept = .ok config) ↔ c.Usable) ∧
    (∀ d, c.accept = .error d ↔ c.Lacks d) ∧
    ∀ config, c.accept = .ok config →
      config.outputSuffix = c.outputSuffix ∧ config.contextLines = c.contextLines ∧
      List.Forall₂ Language.Respelled c.languages config.languages ∧
      config.defect? = none ∧ config.normalized = config := by
  refine ⟨fun document h => h.ofDocument_eq, ?_, fun d => accept_eq_error_iff, ?_⟩
  · constructor
    · rintro ⟨config, h⟩
      exact (accept_eq_ok_iff.mp h).1
    · intro h
      exact ⟨c.normalized, accept_eq_ok_iff.mpr ⟨h, rfl⟩⟩
  · intro config h
    obtain ⟨husable, rfl⟩ := accept_eq_ok_iff.mp h
    refine ⟨rfl, rfl, ?_, defect?_eq_none_iff.mpr husable.normalized, normalized_normalized c⟩
    show List.Forall₂ Language.Respelled c.languages (c.languages.map Language.normalized)
    rw [List.forall₂_map_right_iff, List.forall₂_same]
    exact fun l _ => l.respelled_normalized

/-- a language whose extensions have no dot, nothing but a dot, two dots, and no dot -/
def oddlyDotted : Config := ⟨"_s", 7, [⟨"odd", "#", "", "", ["", ".", "..x", "Y"]⟩]⟩

def oddlyDottedDocument : String :=
  "output_suffix = '_s'\ncontext_lines = 7\n[[language]]\nname = 'odd'\nsingle_line = '#'\n" ++
    "extensions = ['', '.', '..x', 'Y']\n"

theorem writtenIn_oddlyDotted : oddlyDotted.WrittenIn oddlyDottedDocument := by
  have h : (Toml.parse oddlyDottedDocument).bind (fun entries => (decode entries).toOption) =
      some oddlyDotted := by decide +kernel
  obtain ⟨entries, hparse, hdecode⟩ := Option.bind_eq_some_iff.mp h
  refine ⟨entries, hparse, ?_⟩
  cases hread : decode entries with
  | error fault => rw [hread] at hdecode; exact nomatch hdecode
  | ok config => rw [hread] at hdecode; exact congrArg Except.ok (Option.some.inj hdecode)

theorem accept_usable_oddlyDotted :
    oddlyDotted.WrittenIn oddlyDottedDocument ∧ oddlyDotted.Usable ∧
    ofDocument oddlyDottedDocument =
      .ok ⟨"_s", 7, [⟨"odd", "#", "", "", [".", ".", "..x", ".Y"]⟩]⟩ ∧
    List.Forall₂ Language.Respelled oddlyDotted.languages
      [⟨"odd", "#", "", "", [".", ".", "..x", ".Y"]⟩] := by
  have haccept : oddlyDotted.accept =
      .ok ⟨"_s", 7, [⟨"odd", "#", "", "", [".", ".", "..x", ".Y"]⟩]⟩ := rfl
  obtain ⟨hread, husable, -, haccepted⟩ := accept_usable oddlyDotted
  refine ⟨writtenIn_oddlyDotted, husable.mp ⟨_, haccept⟩, ?_, (haccepted _ haccept).2.2.1⟩
  rw [hread _ writtenIn_oddlyDotted, haccept]
  rfl

end Config

end CommentFree
