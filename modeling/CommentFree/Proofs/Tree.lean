import CommentFree.Host.Tree
import Mathlib.Data.List.Induction
import Mathlib.Logic.Function.Basic

/-!
# A tree of files as a map

Through `node?` a tree is a map from locations to nodes.  Where every entry is in a directory
(`Rooted`) there is nothing below a file, so writing, removing and moving a file are updates of the
map at its location (`node?_put`, `node?_erase`, `node?_move`), and a route of names leads
where it says: `find_to`, `create_to`, `unlink_to` and `rename_to` tell what comes of it when neither
location is a directory.
-/

namespace CommentFree.Tree

/-! ## updates -/

theorem node?_nil (t : Tree) : t.node? [] = some .directory := if_pos rfl

theorem node?_cons {loc : Location} (h : loc ≠ []) (e : Location × Node) (t : Tree) :
    node? (e :: t) loc = if e.1 = loc then some e.2 else t.node? loc := by
  unfold node?
  rw [if_neg h, if_neg h, List.find?_cons]
  by_cases he : e.1 = loc
  · rw [decide_eq_true he, if_pos he]
    rfl
  · rw [decide_eq_false he, if_neg he]

theorem node?_erase (t : Tree) {loc : Location} (h : loc ≠ []) :
    (t.erase loc).node? = Function.update t.node? loc none := by
  funext l
  rw [Function.update_apply]
  by_cases hl : l = []
  · subst hl
    rw [if_neg (Ne.symm h), node?_nil, node?_nil]
  · induction t with
    | nil =>
      show node? [] l = _
      by_cases hloc : l = loc
      · rw [if_pos hloc, node?, if_neg hl]
        rfl
      · rw [if_neg hloc]
    | cons e t ih =>
      unfold erase at ih ⊢
      by_cases he : e.1 = loc
      · rw [List.filter_cons, if_neg (by simp [he]), ih, node?_cons hl, he]
        by_cases hloc : l = loc
        · rw [if_pos hloc, if_pos hloc]
        · rw [if_neg hloc, if_neg hloc, if_neg (Ne.symm hloc)]
      · rw [List.filter_cons, if_pos (by simp [he]), node?_cons hl, node?_cons hl, ih]
        by_cases hloc : l = loc
        · rw [if_pos hloc, if_pos hloc, if_neg (hloc ▸ he)]
        · rw [if_neg hloc, if_neg hloc]

theorem node?_put (t : Tree) {loc : Location} (h : loc ≠ []) (n : Node) :
    (t.put loc n).node? = Function.update t.node? loc (some n) := by
  funext l
  unfold put
  rw [Function.update_apply]
  by_cases hl : l = []
  · subst hl
    rw [if_neg (Ne.symm h), node?_nil, node?_nil]
  · rw [node?_cons hl, node?_erase t h, Function.update_apply]
    by_cases hloc : l = loc
    · rw [if_pos hloc.symm, if_pos hloc]
    · rw [if_neg (Ne.symm hloc), if_neg hloc, if_neg hloc]

/-- moving one location, below which there is nothing, to another one that is free -/
theorem node?_map_shift {t : Tree} {source target l : Location} (hl : l ≠ [])
    (hsource : source ≠ [])
    (hbelow : ∀ e ∈ t, source <+: e.1 → e.1 = source) (hfree : ∀ e ∈ t, e.1 ≠ target) :
    node? (t.map fun e => if source <+: e.1 then (target ++ e.1.drop source.length, e.2) else e) l =
      if l = target then t.node? source else if l = source then none else t.node? l := by
  induction t with
  | nil =>
    have hnil : ∀ l ≠ [], node? [] l = none := fun l hl => if_neg hl
    rw [List.map_nil, hnil l hl, hnil source hsource, ite_self, ite_self]
  | cons e t ih =>
    have ih := ih (fun e he => hbelow e (List.mem_cons_of_mem _ he))
      (fun e he => hfree e (List.mem_cons_of_mem _ he))
    have hetarget : e.1 ≠ target := hfree e List.mem_cons_self
    rw [List.map_cons, node?_cons hl, node?_cons hsource, node?_cons hl, ih]
    by_cases hesource : e.1 = source
    · have hstarts : source <+: e.1 := hesource ▸ List.prefix_rfl
      rw [if_pos hstarts, if_pos hesource, hesource, List.drop_length, List.append_nil]
      by_cases hltarget : l = target
      · rw [if_pos hltarget.symm, if_pos hltarget]
      · rw [if_neg (Ne.symm hltarget), if_neg hltarget, if_neg hltarget]
        by_cases hlsource : l = source
        · rw [if_pos hlsource, if_pos hlsource]
        · rw [if_neg hlsource, if_neg hlsource, if_neg (Ne.symm hlsource)]
    · have hstarts : ¬ source <+: e.1 := fun h => hesource (hbelow e List.mem_cons_self h)
      rw [if_neg hstarts, if_neg hesource]
      by_cases hltarget : l = target
      · rw [if_pos hltarget, if_pos hltarget, if_neg (hltarget ▸ hetarget)]
      · rw [if_neg hltarget, if_neg hltarget]
        by_cases hlsource : l = source
        · rw [if_pos hlsource, if_pos hlsource, if_neg (hlsource ▸ hesource)]
        · rw [if_neg hlsource, if_neg hlsource]

theorem node?_move {t : Tree} {source target : Location} (hsource : source ≠ [])
    (htarget : target ≠ []) (hne : source ≠ target)
    (hbelow : ∀ e ∈ t, source <+: e.1 → e.1 = source) :
    (t.move source target).node? =
      Function.update (Function.update t.node? source none) target (t.node? source) := by
  have hmem : ∀ e ∈ t.erase target, e ∈ t ∧ e.1 ≠ target := by
    intro e he
    obtain ⟨he, hother⟩ := List.mem_filter.mp he
    exact ⟨he, of_decide_eq_true hother⟩
  have hthere : (t.erase target).node? source = t.node? source := by
    rw [node?_erase t htarget, Function.update_of_ne hne]
  funext l
  rw [Function.update_apply, Function.update_apply]
  by_cases hl : l = []
  · subst hl
    rw [if_neg (Ne.symm htarget), if_neg (Ne.symm hsource), node?_nil, node?_nil]
  · unfold move
    rw [node?_map_shift hl hsource (fun e he => hbelow e (hmem e he).1) fun e he => (hmem e he).2,
      hthere]
    by_cases hltarget : l = target
    · rw [if_pos hltarget, if_pos hltarget]
    · rw [if_neg hltarget, if_neg hltarget, node?_erase t htarget,
        Function.update_of_ne hltarget]

/-! ## everything is in a directory -/

/-- whatever is there is in a directory -/
def Rooted (node : Location → Option Node) : Prop :=
  ∀ loc name, node (loc ++ [name]) ≠ none → node loc = some .directory

namespace Rooted

variable {node : Location → Option Node} {dir : Location} {name : List Char}

theorem above (h : Rooted node) {loc rest : Location} (hrest : rest ≠ [])
    (hnode : node (loc ++ rest) ≠ none) : node loc = some .directory := by
  induction rest using List.reverseRecOn with
  | nil => exact absurd rfl hrest
  | append_singleton rest name ih =>
    rw [← List.append_assoc] at hnode
    have hdir := h _ _ hnode
    by_cases hnil : rest = []
    · rw [hnil, List.append_nil] at hdir
      exact hdir
    · exact ih hnil (by rw [hdir]; exact Option.some_ne_none _)

theorem update (h : Rooted node) (hdir : node dir = some .directory)
    (hfree : node (dir ++ [name]) ≠ some .directory) {n : Option Node} :
    Rooted (Function.update node (dir ++ [name]) n) := by
  have hself : dir ≠ dir ++ [name] := by simp
  intro loc name' hnode
  by_cases hloc : loc ++ [name'] = dir ++ [name]
  · obtain ⟨rfl, -⟩ := List.append_inj' hloc rfl
    rw [Function.update_of_ne hself, hdir]
  · rw [Function.update_of_ne hloc] at hnode
    have hloc' := h loc name' hnode
    have hother : loc ≠ dir ++ [name] := fun heq => hfree (heq ▸ hloc')
    rw [Function.update_of_ne hother, hloc']

end Rooted

/-- nothing is below what is not a directory -/
theorem eq_of_prefix_of_mem {t : Tree} (h : Rooted t.node?) {loc : Location} (hne : loc ≠ [])
    (hloc : t.node? loc ≠ some .directory) {e : Location × Node} (he : e ∈ t)
    (hstarts : loc <+: e.1) : e.1 = loc := by
  obtain ⟨rest, hrest⟩ := hstarts
  cases rest with
  | nil => rw [← hrest, List.append_nil]
  | cons name rest =>
    refine absurd (h.above (List.cons_ne_nil name rest) ?_) hloc
    have hne' : loc ++ name :: rest ≠ [] := by simp [hne]
    rw [node?, if_neg hne', Ne, Option.map_eq_none_iff, List.find?_eq_none]
    intro hnone
    exact hnone e he (by simp [hrest])

/-! ## routes of names -/

/-- the route of the names on the way to a location, within the limits of the system -/
structure Route.To (r : Route) (loc : Location) : Prop where
  steps : r.steps = loc.map .entry
  slash : r.slash = false
  length : r.length < maxPath
  names : ∀ name ∈ loc, (Utf8.encode name).length ≤ maxName

variable {t : Tree} {dir : Location} {name : List Char} {r : Route}

theorem enter_eq (h : (Utf8.encode name).length ≤ maxName) : enter dir name = .ok (dir ++ [name]) :=
  if_neg (Nat.not_lt.mpr h)

theorem directory_eq (h : t.node? dir = some .directory) : t.directory dir = .ok dir := by
  unfold directory
  rw [h]

theorem walk_directory (hrooted : Rooted t.node?) {loc : Location}
    (hloc : t.node? loc = some .directory)
    (hnames : ∀ name ∈ loc, (Utf8.encode name).length ≤ maxName) :
    t.walk (loc.map .entry) = .ok loc := by
  induction loc using List.reverseRecOn with
  | nil => rfl
  | append_singleton dir name ih =>
    have hdir : t.node? dir = some .directory :=
      hrooted dir name (by rw [hloc]; exact Option.some_ne_none _)
    have hwalk : t.walk (dir.map .entry) = .ok dir :=
      ih hdir fun n hn => hnames n (List.mem_append_left _ hn)
    unfold walk at hwalk ⊢
    rw [List.map_append, List.foldlM_append, hwalk]
    show (t.directory dir >>= fun loc => enter loc name) >>= pure = _
    rw [directory_eq hdir]
    exact congrArg (· >>= pure) (enter_eq (hnames name (by simp)))

namespace Route.To

theorem parent (h : r.To (dir ++ [name])) (hrooted : Rooted t.node?)
    (hdir : t.node? dir = some .directory) : t.parent r = .ok dir := by
  have hwalk := walk_directory hrooted hdir fun n hn => h.names n (List.mem_append_left _ hn)
  unfold Tree.parent follow
  rw [if_neg (Nat.not_le.mpr h.length), h.steps, List.map_append, List.map_singleton,
    List.dropLast_concat, hwalk]
  exact directory_eq hdir

theorem getLast? (h : r.To (dir ++ [name])) : r.steps.getLast? = some (.entry name) := by
  rw [h.steps, List.map_append, List.map_singleton, List.getLast?_concat]

theorem enter (h : r.To (dir ++ [name])) : enter dir name = .ok (dir ++ [name]) :=
  enter_eq (h.names name (by simp))

end Route.To

section
variable (h : r.To (dir ++ [name])) (hrooted : Rooted t.node?)
  (hdir : t.node? dir = some .directory) (hfree : t.node? (dir ++ [name]) ≠ some .directory)
include h hrooted hdir

theorem find_to : t.find r =
    match t.node? (dir ++ [name]) with
    | none => .error .noEntry
    | some n => .ok n := by
  have hwalk := walk_directory hrooted hdir fun n hn => h.names n (List.mem_append_left _ hn)
  have hfollow : t.follow r r.steps = .ok (dir ++ [name]) := by
    unfold walk at hwalk
    unfold follow walk
    rw [if_neg (Nat.not_le.mpr h.length), h.steps, List.map_append, List.foldlM_append, hwalk]
    show (t.directory dir >>= fun loc => enter loc name) >>= pure = _
    rw [directory_eq hdir]
    exact congrArg (· >>= pure) h.enter
  unfold find
  rw [hfollow]
  cases hnode : t.node? (dir ++ [name]) with
  | none => simp [hnode, bind, Except.bind]
  | some n =>
    cases n with
    | directory | file => simp [hnode, h.slash, bind, Except.bind, pure, Except.pure]

include hfree

theorem create_to (content : List UInt8) :
    t.create r content = .ok (t.put (dir ++ [name]) (.file content)) := by
  unfold create
  rw [h.parent hrooted hdir, h.getLast?, h.slash]
  simp [h.enter, hfree, bind, Except.bind, pure, Except.pure]

theorem unlink_to : t.unlink r =
    if t.node? (dir ++ [name]) = none then .error .noEntry else .ok (t.erase (dir ++ [name])) := by
  unfold unlink
  rw [h.parent hrooted hdir, h.getLast?, h.slash]
  cases hnode : t.node? (dir ++ [name]) with
  | none => simp [h.enter, hnode, bind, Except.bind]
  | some n =>
    cases n with
    | file content => simp [h.enter, hnode, bind, Except.bind, pure, Except.pure]
    | directory => exact absurd hnode hfree

end

theorem relocate_file {source target : Location} {content : List UInt8}
    (hsource : t.node? source = some (.file content)) (htarget : t.node? target ≠ some .directory)
    (hlength : source.length = target.length) (hne : source ≠ target) :
    t.relocate source target false = .ok (t.move source target) := by
  have hstarts : target <+: source → target = source := fun h => h.eq_of_length hlength.symm
  unfold relocate
  rw [hsource]
  simpa [htarget, hne, bind, Except.bind, pure, Except.pure] using hstarts

theorem rename_to {other : List Char} {r' : Route} (h : r.To (dir ++ [name]))
    (h' : r'.To (dir ++ [other])) (hrooted : Rooted t.node?)
    (hdir : t.node? dir = some .directory) (hfree : t.node? (dir ++ [name]) ≠ some .directory)
    (hfree' : t.node? (dir ++ [other]) ≠ some .directory) (hne : name ≠ other) :
    t.rename r r' =
      if t.node? (dir ++ [name]) = none then .error .noEntry
      else .ok (t.move (dir ++ [name]) (dir ++ [other])) := by
  unfold rename
  rw [h.parent hrooted hdir, h'.parent hrooted hdir, h.getLast?, h'.getLast?, h.slash, h'.slash]
  cases hnode : t.node? (dir ++ [name]) with
  | none => simp [h.enter, hnode, bind, Except.bind]
  | some n =>
    cases n with
    | directory => exact absurd hnode hfree
    | file content =>
      have hmove := relocate_file hnode hfree' (by simp) (by simp [hne])
      simp [h.enter, h'.enter, hnode, hmove, bind, Except.bind]

end CommentFree.Tree
