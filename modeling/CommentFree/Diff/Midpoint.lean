/-!
# A point in the middle of a shortest script

Comparing `n` old with `m` new lines is walking from `(0, 0)` to `(n, m)` in a grid: right removes
an old line, down adds a new one, and a diagonal step, free of cost, keeps a line both have.  On
the diagonal `k` a point `(x, y)` has `x - y = k`.

Two searches run towards each other, one from each corner.  After `d` edits each knows, for every
diagonal it can be on, the furthest point it reaches; the first diagonal on which the two overlap
gives a point that a shortest script passes through.  The script is built by cutting there, so a
wrong answer could make a script longer and never wrong.
-/

namespace CommentFree.Diff

variable {α : Type} [DecidableEq α]

/-- the furthest `x` on each diagonal; diagonal `k` is stored at `k + origin` -/
structure Reach where
  origin : Nat
  furthest : Array Nat

namespace Reach

/-- room for all diagonals of up to `limit` edits, with diagonal 1 at 0 -/
def start (limit : Nat) : Reach := ⟨limit + 1, Array.replicate (2 * limit + 3) 0⟩

def get (r : Reach) (k : Int) : Nat := r.furthest.getD (k + r.origin).toNat 0

def set (r : Reach) (k : Int) (x : Nat) : Reach :=
  { r with furthest := r.furthest.setIfInBounds (k + r.origin).toNat x }

/-- the `x` at which the `d`-th edit enters the diagonal `k`, from the better of its neighbours -/
def enter (r : Reach) (d : Nat) (k : Int) : Nat :=
  if k = -d ∨ (k ≠ d ∧ r.get (k - 1) < r.get (k + 1)) then r.get (k + 1) else r.get (k - 1) + 1

end Reach

/-- the diagonals that `d` edits can end on, from the outermost right to the outermost left -/
def diagonals (d : Nat) : List Int := (List.range (d + 1)).map fun (i : Nat) => (d : Int) - 2 * (i : Int)

/-- how far two arrays agree from `x` and `y` on, at most `count` elements -/
def agree (old new : Array α) (x y : Nat) : Nat → Nat
  | 0 => 0
  | count + 1 => if old[x]? = new[y]? then agree old new (x + 1) (y + 1) count + 1 else 0

def agreeBack (old new : Array α) (x y : Nat) : Nat → Nat
  | 0 => 0
  | count + 1 =>
    if old[x - 1]? = new[y - 1]? then agreeBack old new (x - 1) (y - 1) count + 1 else 0

/-- takes the forward search through the diagonals `ks`, with `d` edits -/
def forward (old new : Array α) (d : Nat) (back : Reach) :
    List Int → Reach → Reach × Option (Nat × Nat)
  | [], reach => (reach, none)
  | k :: ks, reach =>
    let n := old.size
    let m := new.size
    let delta : Int := (n : Int) - m
    let x := reach.enter d k
    let y := ((x : Int) - k).toNat
    let stop := if x < n ∧ y < m then x + agree old new x y (min (n - x) (m - y)) else x
    let reach := reach.set k stop
    if delta % 2 = 1 ∧ (k - delta).natAbs + 1 ≤ d ∧ n ≤ stop + back.get (delta - k) then
      (reach, some (x, y))
    else forward old new d back ks reach

/-- takes the backward search through the diagonals `ks`, with `d` edits; its points are counted
from the far corner -/
def backward (old new : Array α) (d : Nat) (front : Reach) :
    List Int → Reach → Reach × Option (Nat × Nat)
  | [], reach => (reach, none)
  | k :: ks, reach =>
    let n := old.size
    let m := new.size
    let delta : Int := (n : Int) - m
    let x := reach.enter d k
    let y := ((x : Int) - k).toNat
    let run := if x < n ∧ y < m then agreeBack old new (n - x) (m - y) (min (n - x) (m - y)) else 0
    let reach := reach.set k (x + run)
    if delta % 2 = 0 ∧ (k - delta).natAbs ≤ d ∧ n ≤ x + run + front.get (delta - k) then
      (reach, some (n - (x + run), m - (y + run)))
    else backward old new d front ks reach

/-- lets both searches make the `d`-th edit, and so on for at most `rounds` edits -/
def meet (old new : Array α) (d : Nat) (front back : Reach) : Nat → Option (Nat × Nat)
  | 0 => none
  | rounds + 1 =>
    match forward old new d back (diagonals d) front with
    | (_, some point) => some point
    | (front, none) =>
      match backward old new d front (diagonals d) back with
      | (_, some point) => some point
      | (back, none) => meet old new (d + 1) front back rounds

/-- a point that a shortest script from `old` to `new` passes through -/
def midpoint? (old new : Array α) : Option (Nat × Nat) :=
  let limit := (old.size + new.size + 1) / 2 + 1
  meet old new 0 (.start limit) (.start limit) limit

end CommentFree.Diff
