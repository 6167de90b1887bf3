import CommentFree.Host.Disk
import CommentFree.Proofs.Files
import CommentFree.Proofs.Plain
import CommentFree.Proofs.Simulation
import CommentFree.Proofs.Tree
import Mathlib.Data.List.Basic

/-!
# A disk and its mirror in memory

A host in memory is a good stand-in for a disk.  If it has the files that are below the base
directory of the disk (`Mirrors`), then a session comes to the same on both.

The files in memory are a flat map on components and know no directories.  At the two paths of a
session the disk must not know better, so these have to be plain, in a directory that is there, and
no directories themselves.  Then every change a session makes is an update at one of the two places,
on both sides (`SameFiles.update`, `Beside.update`), and the hosts agree (`Beside.agree`).
-/

namespace CommentFree

open Memory (contents exec)

/-! ## lines of input -/

def typed (lines : List String) : List UInt8 :=
  lines.flatMap fun line => Utf8.ofString line ++ [newline]

theorem cutLine_append {line : List UInt8} (h : newline ∉ line) (rest : List UInt8) :
    Disk.cutLine (line ++ newline :: rest) = (line ++ [newline], rest) := by
  induction line with
  | nil => exact if_pos rfl
  | cons b line ih =>
    rw [List.mem_cons, not_or] at h
    have hb : ¬ b = '\n'.toUInt8 := Ne.symm h.1
    rw [List.cons_append, Disk.cutLine, if_neg hb, ih h.2]
    rfl

theorem trimEnd_append_newline {line : List Char} (hn : '\n' ∉ line) (hr : '\r' ∉ line) :
    trimEnd (line ++ ['\n']) = line := by
  unfold trimEnd
  rw [List.reverse_append, List.reverse_singleton, List.singleton_append,
    List.dropWhile_cons_of_pos (by simp)]
  cases hrev : line.reverse with
  | nil => rw [List.dropWhile_nil, ← hrev, List.reverse_reverse]
  | cons c cs =>
    have hc : c ∈ line := List.mem_reverse.mp (hrev ▸ List.mem_cons_self)
    have hother : ¬ (c = '\r' ∨ c = '\n') := by
      rintro (rfl | rfl)
      · exact hr hc
      · exact hn hc
    rw [List.dropWhile_cons_of_neg (by simpa using hother), ← hrev, List.reverse_reverse]

theorem lineOf_typed {line : String} (hn : '\n' ∉ line.toList) (hr : '\r' ∉ line.toList) :
    lineOf (Utf8.ofString line ++ [newline]) = .ok (some line) := by
  have hbytes : Utf8.ofString line ++ [newline] = Utf8.ofString (line ++ "\n") := by
    rw [Utf8.ofString_append]
    rfl
  have htrim : trimEnd (line ++ "\n").toList = line.toList := by
    rw [String.toList_append]
    exact trimEnd_append_newline hn hr
  have hne : Utf8.ofString line ++ [newline] ≠ [] := by simp
  unfold lineOf
  rw [if_neg hne, hbytes, Utf8.decode?_ofString]
  dsimp only
  rw [htrim, String.ofList_toList]

/-! ## hosts that mirror each other -/

/-- files by components are those of a tree below a base directory -/
def SameFiles (files : List Path.Component → Option (List UInt8)) (node : Location → Option Node)
    (base : Location) : Prop :=
  ∀ k content, files k = some content ↔
    ∃ names, k = names.map .entry ∧ node (base ++ names) = some (.file content)

/-- a host in memory whose files are those below the base directory of a disk, in a run where
nothing is set to fail and the lines to be read are the same -/
structure Mirrors (s : Memory) (d : Disk) : Prop where
  files : SameFiles (contents s.files) d.tree.node? d.base
  input : d.input = typed s.input
  lines : ∀ line ∈ s.input, '\n' ∉ line.toList ∧ '\r' ∉ line.toList
  output : d.output = .open
  failPrint : s.failPrint = false
  failRename : s.failRename = false
  failRemove : s.failRemove = false
  showsColor : d.showsColor = s.showsColor

/-- failures of one kind, met in the same contexts -/
def Alike (e f : Failure) : Prop := e.kind.shape = f.kind.shape ∧ e.context = f.context

/-- the system takes the path: neither a name on the way nor the whole is too long -/
structure Disk.Fits (d : Disk) (p : Path) : Prop where
  names : ∀ name ∈ d.base ++ p.names, (Utf8.encode name).length ≤ Tree.maxName
  length : (Utf8.ofString (d.fullText p)).length < Tree.maxPath

theorem entries_inj {a b : Location} (h : a.map Path.Component.entry = b.map .entry) : a = b :=
  List.map_injective_iff.mpr (fun _ _ h => Path.Component.entry.inj h) h

/-- the same change on both sides -/
theorem SameFiles.update {files : List Path.Component → Option (List UInt8)}
    {node : Location → Option Node} {base : Location} (h : SameFiles files node base)
    (names : Location) (new : Option (List UInt8)) :
    SameFiles (Function.update files (names.map .entry) new)
      (Function.update node (base ++ names) (new.map .file)) base := by
  intro k content
  rw [Function.update_apply]
  by_cases hk : k = names.map .entry
  · subst hk
    rw [if_pos rfl]
    constructor
    · rintro rfl
      exact ⟨names, rfl, Function.update_self ..⟩
    · rintro ⟨names', hnames, hnode⟩
      obtain rfl := entries_inj hnames
      rw [Function.update_self] at hnode
      obtain ⟨c, hc, hfile⟩ := Option.map_eq_some_iff.mp hnode
      rw [hc, Node.file.inj hfile]
  · rw [if_neg hk, h k content]
    refine exists_congr fun names' => and_congr_right fun hnames => ?_
    have hne : base ++ names' ≠ base ++ names := by
      intro heq
      exact hk (hnames.trans (congrArg _ (List.append_cancel_left heq)))
    rw [Function.update_of_ne hne]

namespace Disk

variable {d : Disk} {p : Path}

theorem getLast?_fullText (h : p.Plain) : (d.fullText p).toList.getLast? ≠ some '/' := by
  have hne : p.text.toList ≠ [] := by
    intro hnil
    refine h.nil_notMem ?_
    rw [hnil]
    exact List.mem_cons_self
  have hlast := Path.getLast?_ne_slash h.nil_notMem
  unfold fullText Path.under
  rw [h.fromRoot, if_neg Bool.false_ne_true]
  by_cases hslash : d.baseName = "" ∨ d.baseName.toList.getLast? = some '/'
  · rwa [if_pos hslash, String.toList_append, List.getLast?_append_of_ne_nil _ hne]
  · rwa [if_neg hslash, String.toList_append, List.getLast?_append_of_ne_nil _ hne]

/-- a plain path is the route of its names -/
theorem exists_route (h : p.Plain) (hfits : d.Fits p) :
    ∃ r, d.route p = .ok r ∧ r.To (d.base ++ p.names) := by
  have hsteps : d.steps p = (d.base ++ p.names).map .entry := by
    unfold steps
    rw [h.fromRoot, if_neg Bool.false_ne_true, h.components, List.map_append]
  unfold route
  rw [if_neg h.noZero]
  exact ⟨_, rfl, hsteps, decide_eq_false (getLast?_fullText h), hfits.length, hfits.names⟩

/-! ## the operations of the disk -/

theorem outcome_get_bind {α : Type} (f : Disk → ExceptT Failure Run α) (d : Disk) :
    outcome (get >>= f) d = outcome (f d) d := rfl

theorem outcome_load {r : Tree.Route} (h : d.route p = .ok r) :
    outcome (Host.load p) d =
      match d.tree.find r with
      | .ok (.file content) => (.ok (.ok content), d)
      | .ok .directory => (.ok (.error (.system .isDirectory)), d)
      | .error e => (.error (.file (d.fullText p) (.system e)), d) := by
  have hfind : d.find p = (d.tree.find r).mapError .system := by
    unfold find
    rw [h]
    rfl
  show outcome (load p) d = _
  unfold load
  rw [outcome_get_bind, hfind]
  cases d.tree.find r with
  | error e => rfl
  | ok n =>
    cases n with
    | directory | file => rfl

/-- what a change of the tree comes to -/
def changed (d : Disk) (p : Path) : Except Errno Tree → Except Failure Unit × Disk
  | .ok tree => (.ok (), { d with tree := tree })
  | .error e => (.error (.file (d.fullText p) (.system e)), d)

theorem outcome_change {f : Disk → Except IoError Tree} {result : Except Errno Tree}
    (h : f d = result.mapError .system) : outcome (change p f) d = d.changed p result := by
  unfold change
  rw [outcome_get_bind, h]
  cases result with
  | error e | ok tree => rfl

theorem outcome_create {r : Tree.Route} (h : d.route p = .ok r) (content : List UInt8) :
    outcome (Host.create p content) d = d.changed p (d.tree.create r content) := by
  refine outcome_change ?_
  rw [h]
  rfl

theorem outcome_remove {r : Tree.Route} (h : d.route p = .ok r) :
    outcome (Host.remove p) d = d.changed p (d.tree.unlink r) := by
  refine outcome_change ?_
  rw [h]
  rfl

theorem outcome_rename {q : Path} {r r' : Tree.Route} (h : d.route p = .ok r)
    (h' : d.route q = .ok r') :
    outcome (Host.rename p q) d = d.changed p (d.tree.rename r r') := by
  refine outcome_change ?_
  rw [h, h']
  rfl

theorem outcome_print (text : String) {d : Disk} (h : d.output = .open) :
    outcome (Host.print text) d = (.ok (), { d with printed := d.printed ++ text }) := by
  obtain ⟨tree, base, baseName, input, output, printed, showsColor⟩ := d
  subst h
  rfl

theorem outcome_readLine {d : Disk} {line rest : List UInt8} (h : cutLine d.input = (line, rest)) :
    outcome Host.readLine d = (lineOf line, { d with input := rest }) := by
  show outcome readLine d = _
  unfold readLine
  rw [outcome_get_bind, h]
  rfl

theorem outcome_showsColor (d : Disk) :
    outcome (ExceptT.lift Host.showsColor) d = (.ok d.showsColor, d) := rfl

end Disk

/-! ## the session, operation by operation -/

theorem simulates_of_exec {α : Type} {R : Memory → Disk → Prop} {A : Failure → Failure → Prop}
    {x : ExceptT Failure Memory.Run α} {y : ExceptT Failure Disk.Run α}
    (h : ∀ s d, R s d → Matches A (exec x s).1 (outcome y d).1 ∧ R (exec x s).2 (outcome y d).2) :
    Simulates R A x y := h

def Node.content? : Node → Option (List UInt8)
  | .file content => some content
  | .directory => none

/-- what stays true of both hosts in a session that began at `s₀` and `d₀`: files only come and go,
at the two paths only, and the same is printed -/
structure Beside (dir : Location) (path copy : Path) (s₀ : Memory) (d₀ : Disk) (s : Memory)
    (d : Disk) : Prop where
  mirrors : Mirrors s d
  rooted : Tree.Rooted d.tree.node?
  directory : d.tree.node? (d.base ++ dir) = some .directory
  free : ∀ p ∈ [path, copy], d.tree.node? (d.base ++ p.names) ≠ some .directory
  fits : ∀ p ∈ [path, copy], d.Fits p
  printed : ∃ out, s.printed = s₀.printed ++ out ∧ d.printed = d₀.printed ++ out
  base : d.base = d₀.base
  elsewhere : ∀ loc, (∀ p ∈ [path, copy], loc ≠ d₀.base ++ p.names) →
    d.tree.node? loc = d₀.tree.node? loc

namespace Mirrors

variable {s : Memory} {d : Disk} {p : Path}

theorem lookup?_eq (h : Mirrors s d) (hplain : p.Plain) : Memory.lookup? s.files p =
    (d.tree.node? (d.base ++ p.names)).bind Node.content? := by
  rw [Memory.lookup?_eq_contents, hplain.components]
  refine Option.ext fun content => ?_
  rw [Option.bind_eq_some_iff]
  constructor
  · intro hfile
    obtain ⟨names, hnames, hnode⟩ := (h.files _ _).mp hfile
    rw [entries_inj hnames]
    exact ⟨_, hnode, rfl⟩
  · rintro ⟨n, hnode, hcontent⟩
    refine (h.files _ _).mpr ⟨p.names, rfl, ?_⟩
    cases n with
    | directory => cases hcontent
    | file c => rw [hnode, Option.some.inj hcontent]

end Mirrors

/-- one of the paths as the hosts see it: an entry of the directory -/
structure Entry (dir : Location) (s : Memory) (d : Disk) (p : Path) (name : List Char)
    (r : Tree.Route) : Prop where
  location : d.base ++ p.names = d.base ++ dir ++ [name]
  route : d.route p = .ok r
  leads : r.To (d.base ++ dir ++ [name])
  free : d.tree.node? (d.base ++ dir ++ [name]) ≠ some .directory
  lookup : Memory.lookup? s.files p =
    (d.tree.node? (d.base ++ dir ++ [name])).bind Node.content?

namespace Beside

variable {dir : Location} {path copy : Path} {s₀ s : Memory} {d₀ d : Disk} {p : Path}

/-- a file that comes or goes at one of the paths, on both hosts -/
theorem update (hs : Path.Siblings dir path copy) (h : Beside dir path copy s₀ d₀ s d)
    (hp : p ∈ [path, copy]) {name : List Char} (hloc : d.base ++ p.names = d.base ++ dir ++ [name])
    {files : List (Path × List UInt8)} {tree : Tree} {new : Option (List UInt8)}
    (hfiles : contents files = Function.update (contents s.files) p.components new)
    (htree : tree.node? = Function.update d.tree.node? (d.base ++ dir ++ [name]) (new.map .file)) :
    Beside dir path copy s₀ d₀ { s with files := files } { d with tree := tree } := by
  have hfree := h.free p hp
  have hnew : new.map Node.file ≠ some .directory := by simp
  refine ⟨{ h.mirrors with files := ?_ }, ?_, ?_, fun q hq => ?_, fun q hq => ?_,
    h.printed, h.base, fun loc hother => ?_⟩
  · show SameFiles (contents files) tree.node? d.base
    rw [hfiles, htree, (hs.plain p hp).components, ← hloc]
    exact h.mirrors.files.update p.names new
  · show Tree.Rooted tree.node?
    rw [hloc] at hfree
    rw [htree]
    exact h.rooted.update h.directory hfree
  · show tree.node? (d.base ++ dir) = _
    have hne : d.base ++ dir ≠ d.base ++ dir ++ [name] := by simp
    rw [htree, Function.update_of_ne hne, h.directory]
  · show tree.node? (d.base ++ q.names) ≠ _
    rw [htree, Function.update_apply]
    by_cases hqp : d.base ++ q.names = d.base ++ dir ++ [name]
    · rwa [if_pos hqp]
    · rw [if_neg hqp]
      exact h.free q hq
  · exact ⟨(h.fits q hq).names, (h.fits q hq).length⟩
  · show tree.node? loc = _
    have hne : loc ≠ d.base ++ dir ++ [name] := by
      rw [← hloc, h.base]
      exact hother p hp
    rw [htree, Function.update_of_ne hne, h.elsewhere loc hother]

theorem exists_entry (hs : Path.Siblings dir path copy) (h : Beside dir path copy s₀ d₀ s d)
    (hp : p ∈ [path, copy]) : ∃ loc r, Entry dir s d p loc r := by
  obtain ⟨name, hnames⟩ := hs.names p hp
  obtain ⟨r, hr, hto⟩ := Disk.exists_route (hs.plain p hp) (h.fits p hp)
  have hloc : d.base ++ p.names = d.base ++ dir ++ [name] := by rw [hnames, List.append_assoc]
  have hfree := h.free p hp
  have hlookup := h.mirrors.lookup?_eq (hs.plain p hp)
  rw [hloc] at hto hfree hlookup
  exact ⟨name, r, hloc, hr, hto, hfree, hlookup⟩

section
variable (hs : Path.Siblings dir path copy)
include hs

theorem load : Simulates (Beside dir path copy s₀ d₀) Alike (Host.load path) (Host.load path) := by
  refine simulates_of_exec fun s d h => ?_
  obtain ⟨name, r, he⟩ := h.exists_entry hs (by simp : path ∈ [path, copy])
  have hfree := he.free
  rw [Memory.exec_load, he.lookup, Disk.outcome_load he.route,
    Tree.find_to he.leads h.rooted h.directory]
  cases hnode : d.tree.node? (d.base ++ dir ++ [name]) with
  | none => exact ⟨.error ⟨rfl, rfl⟩, h⟩
  | some n =>
    cases n with
    | directory => exact absurd hnode hfree
    | file content => exact ⟨.ok _, h⟩

theorem create (content : List UInt8) : Simulates (Beside dir path copy s₀ d₀) Alike
    (Host.create copy content) (Host.create copy content) := by
  refine simulates_of_exec fun s d h => ?_
  have hcopy : copy ∈ [path, copy] := by simp
  obtain ⟨name, r, he⟩ := h.exists_entry hs hcopy
  have hloc : d.base ++ dir ++ [name] ≠ [] := by simp
  rw [Memory.exec_create, Disk.outcome_create he.route,
    Tree.create_to he.leads h.rooted h.directory he.free]
  have hput := Tree.node?_put d.tree hloc (.file content)
  exact ⟨.ok (), h.update hs hcopy he.location (Memory.contents_bind _ _ _) hput⟩

theorem remove : Simulates (Beside dir path copy s₀ d₀) Alike
    (Host.remove copy) (Host.remove copy) := by
  refine simulates_of_exec fun s d h => ?_
  have hcopy : copy ∈ [path, copy] := by simp
  obtain ⟨name, r, he⟩ := h.exists_entry hs hcopy
  have hloc : d.base ++ dir ++ [name] ≠ [] := by simp
  have hfree := he.free
  rw [Memory.exec_remove, h.mirrors.failRemove, if_neg Bool.false_ne_true, he.lookup,
    Disk.outcome_remove he.route, Tree.unlink_to he.leads h.rooted h.directory he.free]
  cases hnode : d.tree.node? (d.base ++ dir ++ [name]) with
  | none => exact ⟨.error ⟨rfl, rfl⟩, h⟩
  | some n =>
    cases n with
    | directory => exact absurd hnode hfree
    | file content =>
      rw [if_neg (Option.some_ne_none _)]
      have herase := Tree.node?_erase d.tree hloc
      exact ⟨.ok (), h.update hs hcopy he.location (Memory.contents_erase _ _) herase⟩

theorem rename : Simulates (Beside dir path copy s₀ d₀) Alike
    (Host.rename copy path) (Host.rename copy path) := by
  refine simulates_of_exec fun s d h => ?_
  have hpath : path ∈ [path, copy] := by simp
  have hcopy : copy ∈ [path, copy] := by simp
  obtain ⟨name, r, he⟩ := h.exists_entry hs hcopy
  obtain ⟨name', r', he'⟩ := h.exists_entry hs hpath
  have hfree := he.free
  have hloc : d.base ++ dir ++ [name] ≠ [] := by simp
  have hloc' : d.base ++ dir ++ [name'] ≠ [] := by simp
  have hne : name ≠ name' := by
    rintro rfl
    exact hs.ne (List.append_cancel_left (he'.location.trans he.location.symm))
  rw [Memory.exec_rename, h.mirrors.failRename, if_neg Bool.false_ne_true, he.lookup,
    Disk.outcome_rename he.route he'.route,
    Tree.rename_to he.leads he'.leads h.rooted h.directory he.free he'.free hne]
  cases hnode : d.tree.node? (d.base ++ dir ++ [name]) with
  | none => exact ⟨.error ⟨rfl, rfl⟩, h⟩
  | some n =>
    cases n with
    | directory => exact absurd hnode hfree
    | file content =>
      -- the move is an update at the copy's place and one at the path's, as in memory
      have herase := Tree.node?_erase d.tree hloc
      have hmove := Tree.node?_move hloc hloc' (by simp [hne]) fun e hmem =>
        Tree.eq_of_prefix_of_mem h.rooted hloc hfree hmem
      rw [hnode, ← herase] at hmove
      rw [if_neg (Option.some_ne_none _)]
      have hgone := h.update hs hcopy he.location (Memory.contents_erase _ _) herase
      exact ⟨.ok (), hgone.update hs hpath he'.location (Memory.contents_bind _ _ _) hmove⟩

end

/-- reading and printing leave the files alone -/
theorem streams (h : Beside dir path copy s₀ d₀ s d) {s' : Memory} {input : List UInt8}
    {printed : String} (hmirrors : Mirrors s' { d with input := input, printed := printed })
    (hprinted : ∃ out, s'.printed = s₀.printed ++ out ∧ printed = d₀.printed ++ out) :
    Beside dir path copy s₀ d₀ s' { d with input := input, printed := printed } :=
  ⟨hmirrors, h.rooted, h.directory, h.free,
    fun q hq => ⟨(h.fits q hq).names, (h.fits q hq).length⟩, hprinted, h.base, h.elsewhere⟩

theorem print (text : String) : Simulates (Beside dir path copy s₀ d₀) Alike
    (Host.print text) (Host.print text) := by
  refine simulates_of_exec fun s d h => ?_
  obtain ⟨out, hs, hd⟩ := h.printed
  rw [Memory.exec_print, h.mirrors.failPrint, if_neg Bool.false_ne_true,
    Disk.outcome_print text h.mirrors.output]
  refine ⟨.ok (), h.streams { h.mirrors with } ⟨out ++ text, ?_, ?_⟩⟩
  · rw [← String.append_assoc, ← hs]
    rfl
  · rw [← String.append_assoc, ← hd]

theorem readLine : Simulates (Beside dir path copy s₀ d₀) Alike
    Host.readLine Host.readLine := by
  refine simulates_of_exec fun s d h => ?_
  have hlines := h.mirrors.lines
  have hinput := h.mirrors.input
  rw [Memory.exec_readLine]
  cases hi : s.input with
  | nil =>
    rw [hi] at hinput
    have hcut : Disk.cutLine d.input = ([], []) := by
      rw [hinput]
      rfl
    rw [Disk.outcome_readLine hcut]
    exact ⟨.ok none, h.streams { h.mirrors with input := rfl, lines := by simp } h.printed⟩
  | cons line rest =>
    rw [hi] at hinput hlines
    obtain ⟨hn, hr⟩ := hlines line List.mem_cons_self
    have hcut : Disk.cutLine d.input = (Utf8.ofString line ++ [newline], typed rest) := by
      have hbytes : typed (line :: rest) = Utf8.ofString line ++ newline :: typed rest :=
        List.append_assoc ..
      rw [hinput, hbytes]
      exact cutLine_append (fun hmem => hn (Utf8.mem_of_newline_mem hmem)) _
    have hrest : ∀ l ∈ rest, '\n' ∉ l.toList ∧ '\r' ∉ l.toList :=
      fun l hl => hlines l (List.mem_cons_of_mem _ hl)
    rw [Disk.outcome_readLine hcut, lineOf_typed hn hr]
    exact ⟨.ok _, h.streams { h.mirrors with input := rfl, lines := hrest } h.printed⟩

theorem showsColor : Simulates (Beside dir path copy s₀ d₀) Alike
    (ExceptT.lift Host.showsColor) (ExceptT.lift Host.showsColor) := by
  refine simulates_of_exec fun s d h => ?_
  rw [Memory.exec_showsColor, Disk.outcome_showsColor, h.mirrors.showsColor]
  exact ⟨.ok _, h⟩

/-- the hosts agree on all that a session does -/
theorem agree (hs : Path.Siblings dir path copy) :
    Agree (Beside dir path copy s₀ d₀) Alike path copy where
  refl _ := ⟨rfl, rfl⟩
  withContext context _ _ h := ⟨h.1, congrArg (· ++ [context]) h.2⟩
  load := load hs
  create := create hs
  rename := rename hs
  remove := remove hs
  print := print
  readLine := readLine
  showsColor := showsColor

end Beside

def Disk.taken : Disk where
  tree := (Tree.put [] ["a.c".toList] (.file (Utf8.ofString "x//y\n"))).put ["a_1.c".toList]
    (.file (Utf8.ofString "mine\n"))
  base := []
  baseName := ""
  input := typed Memory.taken.input
  output := .open
  printed := ""
  showsColor := false

/-- the disk as it was prepared, one file after the other -/
theorem node?_taken : Disk.taken.tree.node? =
    Function.update (Function.update (Tree.node? []) ["a.c".toList]
      (some (.file (Utf8.ofString "x//y\n")))) ["a_1.c".toList]
        (some (.file (Utf8.ofString "mine\n"))) := by
  show Tree.node? (Tree.put _ _ _) = _
  rw [Tree.node?_put _ (by simp), Tree.node?_put _ (by simp)]

theorem files_taken : Memory.taken.files =
    Memory.bind (Memory.bind [] ⟨"a.c"⟩ (Utf8.ofString "x//y\n")) ⟨"a_1.c"⟩
      (Utf8.ofString "mine\n") := by
  rfl

theorem mirrors_taken : Mirrors .taken .taken where
  files := by
    have hnone : SameFiles (contents []) (Tree.node? []) [] := by
      intro k content
      refine ⟨(fun h => nomatch h), ?_⟩
      rintro ⟨names, -, hnode⟩
      by_cases hnames : names = []
      · subst hnames
        cases hnode
      · rw [List.nil_append, Tree.node?, if_neg hnames] at hnode
        cases hnode
    show SameFiles _ _ []
    rw [files_taken, Memory.contents_bind, Memory.contents_bind, node?_taken]
    exact (hnone.update ["a.c".toList] (some _)).update ["a_1.c".toList] (some _)
  input := rfl
  lines := by decide
  output := rfl
  failPrint := rfl
  failRename := rfl
  failRemove := rfl
  showsColor := rfl

theorem rooted_taken : Tree.Rooted Disk.taken.tree.node? := by
  have hnone : Tree.Rooted (Tree.node? []) := by
    intro loc name hnode
    rw [Tree.node?, if_neg (by simp)] at hnode
    exact absurd rfl hnode
  have hfirst : Tree.Rooted (Function.update (Tree.node? []) ["a.c".toList]
      (some (.file (Utf8.ofString "x//y\n")))) :=
    @Tree.Rooted.update _ [] "a.c".toList hnone rfl (by decide) _
  rw [node?_taken]
  exact @Tree.Rooted.update _ [] "a_1.c".toList hfirst rfl (by decide) _

theorem plain_taken : Path.Plain ⟨"a.c"⟩ := by
  intro name hname
  have hnames : Path.names ⟨"a.c"⟩ = ["a.c".toList] := by decide
  rw [hnames] at hname
  rw [List.mem_singleton.mp hname]
  exact ⟨by decide, by decide, by decide, by decide⟩

end CommentFree
