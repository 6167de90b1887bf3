import CommentFree.Command
import CommentFree.Proofs.Decode
import CommentFree.Proofs.Files

/-!
# What a command needs and what it may do

A command looks at its arguments, settles its configuration, detects the language and reads the
file, in this order, and only then does it do anything.  What it needs for that is said here in
terms of the bytes it is given and the bytes that are stored, apart from the order of the stages.

* `Settles`                  which configuration is in force for a command;
* `Ready`                    a file to strip has a path, a language and a text;
* `Command.Supplied`         what a command needs is there;
* `Command.FindsComment`     a command strips a file that has a comment;
* `Command.Exits`            the ends of a command, as `Ends` for a session;
* `run_effects`              no effect without a cause.
-/

namespace CommentFree

open Memory (exec exec_bind_ok exec_bind_error lookup?)

/-! ## texts and paths of bytes -/

theorem Memory.text_eq_ok_iff {s : Memory} {path : Path} {text : String} :
    s.text path = .ok text ↔ lookup? s.files path = some (Utf8.ofString text) := by
  unfold Memory.text
  cases lookup? s.files path with
  | none => exact ⟨fun h => (nomatch h), fun h => (nomatch h)⟩
  | some content =>
    dsimp only
    rw [Option.some.injEq, ← Utf8.decode?_eq_some_iff]
    cases Utf8.decode? content with
    | none => exact ⟨fun h => (nomatch h), fun h => (nomatch h)⟩
    | some t => rw [Option.some.injEq, Except.ok.injEq]

theorem Path.ofBytes_eq_ok_iff {bytes : List UInt8} {path : Path} :
    Path.ofBytes bytes = .ok path ↔ bytes = Utf8.ofString path.text := by
  obtain ⟨text⟩ := path
  rw [← Utf8.decode?_eq_some_iff]
  unfold Path.ofBytes
  cases Utf8.decode? bytes with
  | none => exact ⟨fun h => (nomatch h), fun h => (nomatch h)⟩
  | some t => rw [Option.some.injEq, Except.ok.injEq, Path.mk.injEq]

/-! ## the configuration in force -/

def Configures (s : Memory) (path : Path) (config : Config) : Prop :=
  ∃ document, lookup? s.files path = some (Utf8.ofString document) ∧
    Config.ofDocument document = .ok config

/-- the configuration in force, by the bytes that name its file: the one in that file, else the one
in the default file, else the default settings -/
inductive Settles (s : Memory) : Option (List UInt8) → Config → Prop
  | named {path : Path} {config : Config} (h : Configures s path config) :
      Settles s (some (Utf8.ofString path.text)) config
  | found {config : Config} (h : Configures s Config.defaultFile config) : Settles s none config
  | absent (h : lookup? s.files Config.defaultFile = none) : Settles s none .default

namespace Memory

/-- the configuration in a file, or why there is none -/
def loaded (s : Memory) (path : Path) : Except Failure Config :=
  (s.text path).bind fun document =>
    (Config.ofDocument document).mapError
      (·.withContext ("Failed to load config from " ++ path.text))

/-- the configuration in force, or why there is none -/
def configured (s : Memory) : Option (List UInt8) → Except Failure Config
  | some bytes => (Path.ofBytes bytes).bind s.loaded
  | none =>
    if (lookup? s.files Config.defaultFile).isSome then s.loaded Config.defaultFile
    else .ok .default

variable (s : Memory)

theorem exec_loadConfig (path : Path) : exec (Config.load path) s = (s.loaded path, s) :=
  exec_bind_read (exec_readText path s) fun _ => rfl

/-- settling the configuration changes nothing -/
theorem exec_configuration (file : Option (List UInt8)) :
    exec (Command.configuration file) s = (s.configured file, s) := by
  cases file with
  | some bytes =>
    have hpath : exec (Command.path bytes) s = (Path.ofBytes bytes, s) := rfl
    exact exec_bind_read hpath (exec_loadConfig s)
  | none =>
    have hexists : exec (ExceptT.lift (Host.fileExists Config.defaultFile)) s =
        (.ok (lookup? s.files Config.defaultFile).isSome, s) := rfl
    refine (exec_bind_ok hexists _).trans ?_
    unfold configured
    cases (lookup? s.files Config.defaultFile).isSome with
    | true => exact exec_loadConfig s Config.defaultFile
    | false => rfl

variable {s} {config : Config}

theorem loaded_eq_ok_iff {path : Path} : s.loaded path = .ok config ↔ Configures s path config := by
  unfold loaded Configures
  simp only [bind_eq_ok_iff, mapError_eq_ok_iff, text_eq_ok_iff]

theorem configured_eq_ok_iff {file : Option (List UInt8)} :
    s.configured file = .ok config ↔ Settles s file config := by
  constructor
  · intro h
    cases file with
    | some bytes =>
      obtain ⟨path, hpath, hloaded⟩ := bind_eq_ok_iff.mp h
      obtain rfl := Path.ofBytes_eq_ok_iff.mp hpath
      exact .named (loaded_eq_ok_iff.mp hloaded)
    | none =>
      unfold configured at h
      cases hd : lookup? s.files Config.defaultFile with
      | none =>
        rw [hd] at h
        obtain rfl : Config.default = config := Except.ok.inj h
        exact .absent hd
      | some content =>
        rw [hd] at h
        exact .found (loaded_eq_ok_iff.mp h)
  · intro h
    cases h with
    | named h =>
      exact bind_eq_ok_iff.mpr ⟨_, Path.ofBytes_eq_ok_iff.mpr rfl, loaded_eq_ok_iff.mpr h⟩
    | found h =>
      have hloaded := loaded_eq_ok_iff.mpr h
      obtain ⟨document, hd, _⟩ := h
      unfold configured
      rw [hd]
      exact hloaded
    | absent h =>
      unfold configured
      rw [h]
      rfl

end Memory

theorem Memory.not_settles {s : Memory} {file : Option (List UInt8)} {e : Failure}
    (h : s.configured file = .error e) (config : Config) : ¬ Settles s file config := by
  intro hsettles
  rw [configured_eq_ok_iff.mpr hsettles] at h
  cases h

theorem Settles.unique {s : Memory} {file : Option (List UInt8)} {config config' : Config}
    (h : Settles s file config) (h' : Settles s file config') : config = config' :=
  Except.ok.inj
    ((Memory.configured_eq_ok_iff.mpr h).symm.trans (Memory.configured_eq_ok_iff.mpr h'))

/-! ## what a command needs -/

/-- a file to strip, all arguments being bytes: it has a path and a configuration is in force, the
languages of which have one for it, and it holds a text -/
structure Ready (s : Memory) (file : List UInt8) (configFile : Option (List UInt8))
    (config : Config) (path : Path) (language : Language) (source : String) : Prop where
  settles : Settles s configFile config
  spells : file = Utf8.ofString path.text
  detects : Language.detect? config.registry path = some language
  holds : lookup? s.files path = some (Utf8.ofString source)

namespace Command

/-- what a command needs is there -/
def Supplied (s : Memory) : Command → Prop
  | greet _ => True
  | strip file configFile _ =>
    ∃ config path language source, Ready s file configFile config path language source
  | languages configFile => ∃ config, Settles s configFile config

/-- a command strips a file with these options, and the file has a comment -/
def FindsComment (s : Memory) (command : Command) (options : StripOptions) : Prop :=
  ∃ file configFile config path language source,
    command = .strip file configFile options ∧
      Ready s file configFile config path language source ∧
      (CommentFree.strip source language).found = true

/-! ## the exits -/

/-- the exits of a command: what it returns, and the state it leaves -/
inductive Exits (s : Memory) : Command → Except Failure Unit × Memory → Prop
  | greeted (name : String) :
      Exits s (.greet name)
        (.ok (), if s.failPrint then s else s.say (greeting name ++ "\n"))
  | unsettled {configFile : Option (List UInt8)} {e : Failure}
      (h : ∀ config, ¬ Settles s configFile config) : Exits s (.languages configFile) (.error e, s)
  | unlisted {configFile : Option (List UInt8)} {config : Config}
      (h : Settles s configFile config) (hprint : s.failPrint = true) :
      Exits s (.languages configFile) (.error (Memory.injected "<stdout>"), s)
  | listed {configFile : Option (List UInt8)} {config : Config}
      (h : Settles s configFile config) (hprint : s.failPrint = false) :
      Exits s (.languages configFile)
        (.ok (), s.say (String.join (config.registry.map Language.entry)))
  | unstarted {file : List UInt8} {configFile : Option (List UInt8)} {options : StripOptions}
      {e : Failure}
      (h : ∀ config (path : Path), Settles s configFile config → file ≠ Utf8.ofString path.text) :
      Exits s (.strip file configFile options) (.error e, s)
  | session {path : Path} {configFile : Option (List UInt8)} {options : StripOptions}
      {config : Config} {result : Except Failure Report} {after : Memory}
      (h : Settles s configFile config) (hends : Ends config path options s (result, after)) :
      Exits s (.strip (Utf8.ofString path.text) configFile options)
        (result.map fun _ => (), after)

theorem exec_run_strip {s : Memory} {configFile : Option (List UInt8)} {config : Config}
    (h : Settles s configFile config) (path : Path) (options : StripOptions) :
    exec (run (.strip (Utf8.ofString path.text) configFile options)) s =
      ((exec (stripFile config path options) s).1.map fun _ => (),
        (exec (stripFile config path options) s).2) := by
  have hconfig := Memory.exec_configuration s configFile
  rw [Memory.configured_eq_ok_iff.mpr h] at hconfig
  have hpath : exec (Command.path (Utf8.ofString path.text)) s = (.ok path, s) :=
    congrArg (·, s) (Path.ofBytes_eq_ok_iff.mpr rfl)
  refine (exec_bind_ok hconfig _).trans ((exec_bind_ok hpath _).trans ?_)
  exact Memory.exec_bind_pure _ _ s

theorem run_strip_exits (s : Memory) (file : List UInt8) (configFile : Option (List UInt8))
    (options : StripOptions) :
    Exits s (.strip file configFile options) (exec (run (.strip file configFile options)) s) := by
  have hconfig := Memory.exec_configuration s configFile
  cases hc : s.configured configFile with
  | error e =>
    rw [hc] at hconfig
    rw [show exec (run (.strip file configFile options)) s = _ from exec_bind_error hconfig _]
    exact .unstarted fun config _ h => absurd h (Memory.not_settles hc config)
  | ok config =>
    have hpath : exec (Command.path file) s = (Path.ofBytes file, s) := rfl
    cases hp : Path.ofBytes file with
    | error e =>
      rw [hc] at hconfig
      rw [hp] at hpath
      rw [show exec (run (.strip file configFile options)) s = _ from
        (exec_bind_ok hconfig _).trans (exec_bind_error hpath _)]
      refine .unstarted fun config path _ hfile => ?_
      rw [Path.ofBytes_eq_ok_iff.mpr hfile] at hp
      cases hp
    | ok path =>
      have h := Memory.configured_eq_ok_iff.mp hc
      obtain rfl := Path.ofBytes_eq_ok_iff.mp hp
      rw [exec_run_strip h]
      exact .session h (stripFile_ends config path options s)

theorem run_languages_exits (s : Memory) (configFile : Option (List UInt8)) :
    Exits s (.languages configFile) (exec (run (.languages configFile)) s) := by
  have hconfig := Memory.exec_configuration s configFile
  cases hc : s.configured configFile with
  | error e =>
    rw [hc] at hconfig
    rw [show exec (run (.languages configFile)) s = _ from exec_bind_error hconfig _]
    exact .unsettled (Memory.not_settles hc)
  | ok config =>
    rw [hc] at hconfig
    rw [show exec (run (.languages configFile)) s = _ from exec_bind_ok hconfig _]
    have h := Memory.configured_eq_ok_iff.mp hc
    cases hp : s.failPrint with
    | true =>
      rw [Memory.exec_print_error hp]
      exact .unlisted h hp
    | false =>
      rw [Memory.exec_print_ok hp]
      exact .listed h hp

theorem run_greet_exits (s : Memory) (name : String) :
    Exits s (.greet name) (exec (run (.greet name)) s) := by
  have hrun : exec (run (.greet name)) s =
      (.ok (), (exec (Host.print (greeting name ++ "\n")) s).2) := rfl
  have hafter : (exec (Host.print (greeting name ++ "\n")) s).2 =
      if s.failPrint then s else s.say (greeting name ++ "\n") := by
    rw [Memory.exec_print]
    split
    · rfl
    · rfl
  rw [hrun, hafter]
  exact .greeted name

/-- **A command ends in one of its exits.** -/
theorem run_exits (s : Memory) (command : Command) : Exits s command (exec command.run s) := by
  cases command with
  | greet name => exact run_greet_exits s name
  | strip file configFile options => exact run_strip_exits s file configFile options
  | languages configFile => exact run_languages_exits s configFile

end Command

/-! ## causes -/

section
variable {config : Config} {path : Path} {options : StripOptions} {s after : Memory}
  {file : List UInt8} {configFile : Option (List UInt8)} {language : Language} {source : String}

theorem Ready.finds (h : Ready s file configFile config path language source) :
    Finds config path s language source :=
  ⟨h.detects, Memory.text_eq_ok_iff.mpr h.holds⟩

theorem Finds.ready (h : Finds config path s language source)
    (hsettles : Settles s configFile config) :
    Ready s (Utf8.ofString path.text) configFile config path language source :=
  ⟨hsettles, rfl, h.language, Memory.text_eq_ok_iff.mp h.source⟩

/-- the needs of a strip command whose configuration and path are known -/
theorem Command.supplied_strip_iff (hsettles : Settles s configFile config) :
    (Command.strip (Utf8.ofString path.text) configFile options).Supplied s ↔
      ∃ language source, Finds config path s language source := by
  constructor
  · rintro ⟨config', path', language, source, h⟩
    obtain rfl := hsettles.unique h.settles
    have hpath : Path.ofBytes (Utf8.ofString path.text) = .ok path :=
      Path.ofBytes_eq_ok_iff.mpr rfl
    have hpath' : Path.ofBytes (Utf8.ofString path.text) = .ok path' :=
      Path.ofBytes_eq_ok_iff.mpr h.spells
    obtain rfl : path = path' := Except.ok.inj (hpath.symm.trans hpath')
    exact ⟨language, source, h.finds⟩
  · rintro ⟨language, source, h⟩
    exact ⟨config, path, language, source, h.ready hsettles⟩

variable {result : Except Failure Report}

theorem Ends.quiet_or_finds (h : Ends config path options s (result, after)) :
    (after.files = s.files ∧ after.input = s.input) ∨
      ∃ language source, Finds config path s language source ∧
        (strip source language).found = true := by
  cases h with
  | unsupported | unreadable | unsaid | noComments => exact .inl ⟨rfl, rfl⟩
  | unshown h hfound | unreplaced h hfound | replaced h hfound | undiscarded h hfound
  | discarded h hfound => exact .inr ⟨_, _, h, hfound⟩

theorem Ends.of_not_finds (h : Ends config path options s (result, after))
    (hnot : ¬ ∃ language source, Finds config path s language source) :
    (∃ e, result = .error e) ∧ after = s := by
  cases h with
  | unsupported | unreadable => exact ⟨⟨_, rfl⟩, rfl⟩
  | unsaid h | noComments h | unshown h | unreplaced h | replaced h | undiscarded h | discarded h =>
    exact absurd ⟨_, _, h⟩ hnot

/-- a session that finds its file fails only if the host refuses something -/
theorem Ends.refusal {e : Failure} (h : Ends config path options s (.error e, after))
    (hfinds : Finds config path s language source) :
    s.failPrint = true ∨ s.failRename = true ∨ s.failRemove = true := by
  cases h with
  | unsupported h =>
    rw [hfinds.language] at h
    cases h
  | unreadable h =>
    rw [hfinds.source] at h
    cases h
  | unsaid _ _ hprint | unshown _ _ hprint => exact .inl hprint
  | unreplaced _ _ _ _ hrename => exact .inr (.inl hrename)
  | undiscarded _ _ _ _ hremove => exact .inr (.inr hremove)

end

namespace Command.Exits

variable {s after : Memory} {command : Command} {result : Except Failure Unit}

/-- a command changes neither files nor input, or it found a comment; and it asks only without an
option -/
theorem quiet_or_finds (h : Exits s command (result, after)) :
    (after.files = s.files ∧ after.input = s.input) ∨
      ∃ options, command.FindsComment s options ∧
        (after.input = s.input ∨ options.assumeYes = false) := by
  cases h with
  | greeted name =>
    left
    split
    · exact ⟨rfl, rfl⟩
    · exact ⟨rfl, rfl⟩
  | unsettled | unlisted | listed | unstarted => exact .inl ⟨rfl, rfl⟩
  | session hsettles hends =>
    obtain hquiet | ⟨language, source, hfinds, hfound⟩ := hends.quiet_or_finds
    · exact .inl hquiet
    · have hready := hfinds.ready hsettles
      exact .inr ⟨_, ⟨_, _, _, _, _, _, rfl, hready, hfound⟩, hends.input_eq.imp_right And.left⟩

/-- a command that lacks something fails and does nothing -/
theorem of_not_supplied (h : Exits s command (result, after)) (hnot : ¬ command.Supplied s) :
    (∃ e, result = .error e) ∧ after = s := by
  cases h with
  | greeted => exact absurd trivial hnot
  | unsettled | unstarted => exact ⟨⟨_, rfl⟩, rfl⟩
  | unlisted h | listed h => exact absurd ⟨_, h⟩ hnot
  | session hsettles hends =>
    rw [supplied_strip_iff hsettles] at hnot
    obtain ⟨⟨e, rfl⟩, rfl⟩ := hends.of_not_finds hnot
    exact ⟨⟨e, rfl⟩, rfl⟩

/-- a command that lacks nothing fails only if the host refuses something -/
theorem refusal (h : Exits s command (result, after)) (hsupplied : command.Supplied s)
    {e : Failure} (hresult : result = .error e) :
    s.failPrint = true ∨ s.failRename = true ∨ s.failRemove = true := by
  cases h with
  | greeted | listed => cases hresult
  | unsettled h =>
    obtain ⟨config, hsettles⟩ := hsupplied
    exact absurd hsettles (h config)
  | unlisted _ hprint => exact .inl hprint
  | unstarted h =>
    obtain ⟨config, path, _, _, hready⟩ := hsupplied
    exact absurd hready.spells (h config path hready.settles)
  | @session _ _ _ _ result _ hsettles hends =>
    rw [supplied_strip_iff hsettles] at hsupplied
    obtain ⟨language, source, hfinds⟩ := hsupplied
    cases result with
    | error e => exact hends.refusal hfinds
    | ok report => cases hresult

end Command.Exits

/-- **No effect without a cause.**  Files change only when a file is stripped for which there are a
configuration and a path, a language and a text, and in which a comment is found; input is read
only when besides that the question is asked.  A command that lacks anything it needs fails and
leaves all as it was, and one that lacks nothing fails only if the host refuses something. -/
theorem run_effects (command : Command) (s after : Memory) (result : Except Failure Unit)
    (hrun : exec command.run s = (result, after)) :
    (after.files ≠ s.files → ∃ options, command.FindsComment s options) ∧
    (after.input ≠ s.input →
      ∃ options, options.assumeYes = false ∧ command.FindsComment s options) ∧
    ((∀ file configFile options, command ≠ .strip file configFile options) →
      after.files = s.files ∧ after.input = s.input) ∧
    (¬ command.Supplied s → (∃ e, result = .error e) ∧ after = s) ∧
    (∀ e, result = .error e → command.Supplied s →
      s.failPrint = true ∨ s.failRename = true ∨ s.failRemove = true) := by
  have hexits : Command.Exits s command (result, after) := hrun ▸ Command.run_exits s command
  have hcause := hexits.quiet_or_finds
  refine ⟨?_, ?_, ?_, hexits.of_not_supplied, fun e he hs => hexits.refusal hs he⟩
  · intro hfiles
    obtain ⟨hkept, _⟩ | ⟨options, hfinds, _⟩ := hcause
    · exact absurd hkept hfiles
    · exact ⟨options, hfinds⟩
  · intro hinput
    obtain ⟨_, hkept⟩ | ⟨options, hfinds, hkept | hasks⟩ := hcause
    · exact absurd hkept hinput
    · exact absurd hkept hinput
    · exact ⟨options, hasks, hfinds⟩
  · intro hstrip
    obtain hquiet | ⟨options, ⟨file, configFile, _, _, _, _, rfl, _⟩, _⟩ := hcause
    · exact hquiet
    · exact absurd rfl (hstrip file configFile options)

theorem run_effects_taken :
    (∃ after, exec (Command.run (.strip (Utf8.ofString "a.c") none ⟨false, .never⟩)) .taken =
        (.ok (), after) ∧ after.files ≠ Memory.taken.files ∧
      ∃ options, Command.FindsComment .taken
        (.strip (Utf8.ofString "a.c") none ⟨false, .never⟩) options) ∧
    ∃ e, exec (Command.run (.strip [255] none ⟨false, .never⟩)) .taken = (.error e, .taken) := by
  constructor
  · obtain ⟨after, hsession⟩ := exec_stripFile_taken ⟨false, .never⟩
    have hrun := Command.exec_run_strip (s := .taken) (.absent rfl) ⟨"a.c"⟩ ⟨false, .never⟩
    rw [hsession] at hrun
    have hends : Ends .default ⟨"a.c"⟩ ⟨false, .never⟩ .taken (_, after) :=
      hsession ▸ stripFile_ends .default ⟨"a.c"⟩ ⟨false, .never⟩ .taken
    have hgone := hends.leaves.lookup?_copy (by decide) (by rw [copyPath_taken]; decide)
    rw [copyPath_taken] at hgone
    have hfiles : after.files ≠ Memory.taken.files := by
      intro hfiles
      rw [hfiles] at hgone
      exact absurd hgone (by decide)
    exact ⟨after, hrun, hfiles, (run_effects _ _ _ _ hrun).1 hfiles⟩
  · have hnot : ¬ Command.Supplied .taken (.strip [255] none ⟨false, .never⟩) := by
      rintro ⟨_, path, _, _, h⟩
      have hdecode : Utf8.decode? [255] = none := by decide +kernel
      have hpath := Utf8.decode?_eq_some_iff.mpr h.spells
      rw [hdecode] at hpath
      cases hpath
    obtain ⟨⟨e, he⟩, hs⟩ := (run_effects _ .taken _ _ rfl).2.2.2.1 hnot
    exact ⟨e, Prod.ext he hs⟩

end CommentFree
