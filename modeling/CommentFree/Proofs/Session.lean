import CommentFree.Proofs.Memory
import CommentFree.Session

/-!
# How a session ends

`Ends` lists the exits of a session on the host in memory, each with what it returns and the state
it leaves; `stripFile_ends` says that there is no other.  Printing fails always or never in one
run, so a session that has come to its question has nothing to fear but the last step on the files.
-/

namespace CommentFree

open Memory (exec exec_bind_ok exec_bind_error)

/-- what a session finds at a path: a language for it, and a text -/
structure Finds (config : Config) (path : Path) (s : Memory) (language : Language)
    (source : String) : Prop where
  language : Language.detect? config.registry path = some language
  source : s.text path = .ok source

/-- whether the file is to be replaced, by option or by the next line of input -/
def StripOptions.accepts (options : StripOptions) (s : Memory) : Bool :=
  options.assumeYes || acceptsReplacement s.input.head?

def changeText (config : Config) (color : Diff.ColorMode) (path copy : Path) (s : Memory)
    (source stripped : String) : String :=
  Diff.colorize s.showsColor color
    (Diff.unified source stripped path.text copy.text config.contextLines)

namespace Memory

def asked (s : Memory) (options : StripOptions) : Memory :=
  if options.assumeYes then s else { s.say replaceQuestion with input := s.input.tail }

/-! ## the stages -/

variable {s : Memory}

theorem exec_print_ok (h : s.failPrint = false) (text : String) :
    exec (Host.print text) s = (.ok (), s.say text) := by
  rw [exec_print, if_neg (by simp [h])]

theorem exec_print_error (h : s.failPrint = true) (text : String) :
    exec (Host.print text) s = (.error (injected "<stdout>"), s) := by
  rw [exec_print, if_pos h]

theorem exec_showChange_ok (h : s.failPrint = false) (config : Config) (color : Diff.ColorMode)
    (path copy : Path) (source stripped : String) :
    exec (showChange config color path copy source stripped) s =
      (.ok (), s.say (changeText config color path copy s source stripped)) := by
  unfold showChange
  rw [exec_bind_ok (exec_showsColor s)]
  exact exec_print_ok h _

theorem exec_showChange_error (h : s.failPrint = true) (config : Config) (color : Diff.ColorMode)
    (path copy : Path) (source stripped : String) :
    exec (showChange config color path copy source stripped) s =
      (.error (injected "<stdout>"), s) := by
  unfold showChange
  rw [exec_bind_ok (exec_showsColor s)]
  exact exec_print_error h _

theorem exec_decideReplacement (h : s.failPrint = false) (options : StripOptions) :
    exec (decideReplacement options) s = (.ok (options.accepts s), s.asked options) := by
  unfold decideReplacement StripOptions.accepts asked
  cases options.assumeYes with
  | true => rfl
  | false =>
    show exec (Host.print replaceQuestion >>= fun _ => _) s = _
    rw [exec_bind_ok (exec_print_ok h replaceQuestion), exec_bind_ok (exec_readLine _)]
    rfl

theorem exec_concludeSession_replaced {path copy : Path} {content : List UInt8} (n : Nat)
    (hprint : s.failPrint = false) (hrename : s.failRename = false)
    (hcopy : lookup? s.files copy = some content) :
    exec (concludeSession path copy n true) s =
      (.ok (.replaced path n),
        ((s.discard copy).store path content).say "File successfully replaced.\n") := by
  have hmove : exec (Host.rename copy path) s = (.ok (), (s.discard copy).store path content) := by
    rw [exec_rename, if_neg (by simp [hrename]), hcopy]
  show exec (inContext _ _ >>= fun _ => _) s = _
  rw [exec_bind_ok (exec_inContext_ok hmove _),
    exec_bind_ok (exec_print_ok (s := (s.discard copy).store path content) hprint _)]
  rfl

theorem exec_concludeSession_unreplaced {path copy : Path} (n : Nat) (hrename : s.failRename = true) :
    exec (concludeSession path copy n true) s =
      (.error ((injected copy.text).withContext "Error replacing original file"), s) := by
  have hmove : exec (Host.rename copy path) s = (.error (injected copy.text), s) := by
    rw [exec_rename, if_pos hrename]
  show exec (inContext _ _ >>= fun _ => _) s = _
  rw [exec_bind_error (exec_inContext_error hmove _)]

theorem exec_concludeSession_discarded {path copy : Path} {content : List UInt8} (n : Nat)
    (hprint : s.failPrint = false) (hremove : s.failRemove = false)
    (hcopy : lookup? s.files copy = some content) :
    exec (concludeSession path copy n false) s =
      (.ok (.discarded copy),
        (s.discard copy).say ("Temporary file removed: " ++ copy.text ++ "\n")) := by
  have hremoved : exec (Host.remove copy) s = (.ok (), s.discard copy) := by
    rw [exec_remove, if_neg (by simp [hremove]), hcopy]
  show exec (inContext _ _ >>= fun _ => _) s = _
  rw [exec_bind_ok (exec_inContext_ok hremoved _),
    exec_bind_ok (exec_print_ok (s := s.discard copy) hprint _)]
  rfl

theorem exec_concludeSession_undiscarded {path copy : Path} (n : Nat)
    (hremove : s.failRemove = true) :
    exec (concludeSession path copy n false) s =
      (.error ((injected copy.text).withContext "Error removing temporary file"), s) := by
  have hremoved : exec (Host.remove copy) s = (.error (injected copy.text), s) := by
    rw [exec_remove, if_pos hremove]
  show exec (inContext _ _ >>= fun _ => _) s = _
  rw [exec_bind_error (exec_inContext_error hremoved _)]

/-- the state in which it is decided what becomes of the copy -/
def decided (s : Memory) (config : Config) (path : Path) (options : StripOptions)
    (source : String) (t : Stripped) : Memory :=
  let copy := path.copyPath config.outputSuffix
  ((s.store copy (Utf8.ofString t.text)).say
    (changeText config options.color path copy s source t.text)).asked options

section
variable (s : Memory) (options : StripOptions)

theorem asked_files : (s.asked options).files = s.files := by
  unfold asked
  cases options.assumeYes with
  | true => rfl
  | false => rfl

/-- the question takes a line of input, unless there is none -/
theorem decided_input (config : Config) (path : Path) (source : String) (t : Stripped) :
    (s.decided config path options source t).input = s.input ∨
      options.assumeYes = false ∧
        ∃ line, s.input = line :: (s.decided config path options source t).input := by
  unfold decided asked
  cases options.assumeYes with
  | true => exact .inl rfl
  | false =>
    cases hi : s.input with
    | nil => exact .inl (congrArg List.tail hi)
    | cons line rest => exact .inr ⟨rfl, line, (congrArg (fun l => line :: l.tail) hi).symm⟩

theorem decided_flags (config : Config) (path : Path) (source : String) (t : Stripped) :
    (s.decided config path options source t).failPrint = s.failPrint ∧
      (s.decided config path options source t).failRename = s.failRename ∧
      (s.decided config path options source t).failRemove = s.failRemove := by
  unfold decided asked
  cases options.assumeYes with
  | true => exact ⟨rfl, rfl, rfl⟩
  | false => exact ⟨rfl, rfl, rfl⟩

/-- the files after the question are those after the copy was written -/
theorem contents_decided (config : Config) (path : Path) (source : String) (t : Stripped) :
    contents (s.decided config path options source t).files =
      Function.update (contents s.files) (path.copyPath config.outputSuffix).components
        (some (Utf8.ofString t.text)) := by
  unfold decided
  rw [asked_files]
  exact contents_bind ..

theorem lookup?_decided (config : Config) (path : Path) (source : String) (t : Stripped) :
    lookup? (s.decided config path options source t).files (path.copyPath config.outputSuffix) =
      some (Utf8.ofString t.text) := by
  rw [lookup?_eq_contents, contents_decided, Function.update_self]

end

end Memory

/-! ## the exits -/

/-- the exits of a session: what it returns, and the state it leaves -/
inductive Ends (config : Config) (path : Path) (options : StripOptions) (s : Memory) :
    Except Failure Report × Memory → Prop
  | unsupported (h : Language.detect? config.registry path = none) :
      Ends config path options s (.error (.of (.unsupported path.text)), s)
  | unreadable {e : Failure} (h : s.text path = .error e) :
      Ends config path options s (.error (e.withContext "Error reading input file"), s)
  | unsaid {language : Language} {source : String} (h : Finds config path s language source)
      (hfound : (strip source language).found = false) (hprint : s.failPrint = true) :
      Ends config path options s (.error (Memory.injected "<stdout>"), s)
  | noComments {language : Language} {source : String} (h : Finds config path s language source)
      (hfound : (strip source language).found = false) (hprint : s.failPrint = false) :
      Ends config path options s (.ok .noComments, s.say "No comments found in the code.\n")
  | unshown {language : Language} {source : String} (h : Finds config path s language source)
      (hfound : (strip source language).found = true) (hprint : s.failPrint = true) :
      Ends config path options s (.error (Memory.injected "<stdout>"),
        s.store (path.copyPath config.outputSuffix) (Utf8.ofString (strip source language).text))
  | unreplaced {language : Language} {source : String} (h : Finds config path s language source)
      (hfound : (strip source language).found = true) (hprint : s.failPrint = false)
      (haccept : options.accepts s = true) (hrename : s.failRename = true) :
      Ends config path options s
        (.error ((Memory.injected (path.copyPath config.outputSuffix).text).withContext
          "Error replacing original file"),
        s.decided config path options source (strip source language))
  | replaced {language : Language} {source : String} (h : Finds config path s language source)
      (hfound : (strip source language).found = true) (hprint : s.failPrint = false)
      (haccept : options.accepts s = true) (hrename : s.failRename = false) :
      Ends config path options s (.ok (.replaced path (strip source language).removed),
        (((s.decided config path options source (strip source language)).discard
          (path.copyPath config.outputSuffix)).store path
            (Utf8.ofString (strip source language).text)).say "File successfully replaced.\n")
  | undiscarded {language : Language} {source : String} (h : Finds config path s language source)
      (hfound : (strip source language).found = true) (hprint : s.failPrint = false)
      (haccept : options.accepts s = false) (hremove : s.failRemove = true) :
      Ends config path options s
        (.error ((Memory.injected (path.copyPath config.outputSuffix).text).withContext
          "Error removing temporary file"),
        s.decided config path options source (strip source language))
  | discarded {language : Language} {source : String} (h : Finds config path s language source)
      (hfound : (strip source language).found = true) (hprint : s.failPrint = false)
      (haccept : options.accepts s = false) (hremove : s.failRemove = false) :
      Ends config path options s (.ok (.discarded (path.copyPath config.outputSuffix)),
        ((s.decided config path options source (strip source language)).discard
          (path.copyPath config.outputSuffix)).say
            ("Temporary file removed: " ++ (path.copyPath config.outputSuffix).text ++ "\n"))

theorem concludeSession_ends {config : Config} {path : Path} {options : StripOptions} {s : Memory}
    {language : Language} {source : String} (h : Finds config path s language source)
    (hfound : (strip source language).found = true) (hprint : s.failPrint = false) :
    Ends config path options s
      (exec (concludeSession path (path.copyPath config.outputSuffix)
        (strip source language).removed (options.accepts s))
        (s.decided config path options source (strip source language))) := by
  have hcopy := Memory.lookup?_decided s options config path source (strip source language)
  obtain ⟨htprint, htrename, htremove⟩ :=
    Memory.decided_flags s options config path source (strip source language)
  rw [hprint] at htprint
  cases haccept : options.accepts s with
  | true =>
    cases hrename : s.failRename with
    | true =>
      rw [hrename] at htrename
      rw [Memory.exec_concludeSession_unreplaced _ htrename]
      exact .unreplaced h hfound hprint haccept hrename
    | false =>
      rw [hrename] at htrename
      rw [Memory.exec_concludeSession_replaced _ htprint htrename hcopy]
      exact .replaced h hfound hprint haccept hrename
  | false =>
    cases hremove : s.failRemove with
    | true =>
      rw [hremove] at htremove
      rw [Memory.exec_concludeSession_undiscarded _ htremove]
      exact .undiscarded h hfound hprint haccept hremove
    | false =>
      rw [hremove] at htremove
      rw [Memory.exec_concludeSession_discarded _ htprint htremove hcopy]
      exact .discarded h hfound hprint haccept hremove

/-- **A session ends in one of its exits.** -/
theorem stripFile_ends (config : Config) (path : Path) (options : StripOptions) (s : Memory) :
    Ends config path options s (exec (stripFile config path options) s) := by
  unfold stripFile
  cases hl : Language.detect? config.registry path with
  | none => exact .unsupported hl
  | some language =>
    have hread : exec (readText path) s = (s.text path, s) := Memory.exec_readText path s
    cases ht : s.text path with
    | error e =>
      rw [ht] at hread
      dsimp only
      rw [exec_bind_error (Memory.exec_inContext_error hread _)]
      exact .unreadable ht
    | ok source =>
      rw [ht] at hread
      dsimp only
      rw [exec_bind_ok (Memory.exec_inContext_ok hread _)]
      have h : Finds config path s language source := ⟨hl, ht⟩
      cases hf : (strip source language).found with
      | false =>
        rw [Bool.not_false, if_pos rfl]
        cases hp : s.failPrint with
        | true =>
          rw [exec_bind_error (Memory.exec_print_error hp _)]
          exact .unsaid h hf hp
        | false =>
          rw [exec_bind_ok (Memory.exec_print_ok hp _)]
          exact .noComments h hf hp
      | true =>
        rw [Bool.not_true, if_neg Bool.false_ne_true,
          exec_bind_ok (Memory.exec_inContext_ok (Memory.exec_create _ _ s) _)]
        by_cases hp : s.failPrint = true
        · rw [exec_bind_error (Memory.exec_showChange_error (s := s.store _ _) hp ..)]
          exact .unshown h hf hp
        · rw [Bool.not_eq_true] at hp
          rw [exec_bind_ok (Memory.exec_showChange_ok (s := s.store _ _) hp ..),
            exec_bind_ok (Memory.exec_decideReplacement (s := (s.store _ _).say _) hp options)]
          exact concludeSession_ends h hf hp

end CommentFree
