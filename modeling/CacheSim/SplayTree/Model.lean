import Mathlib.Algebra.Group.Basic
import Mathlib.Order.Lattice

/-!
# The splay tree (`splaytree.hpp`)

A node holds the sum of the values below it. The parent pointers of a node are the path to it, its
own parent first.
-/

namespace CacheSim.Splay

/-- The fields of `node` besides its children. -/
structure Item (K V : Type) where
  first : K
  second : V
  sum : V
  size : UInt32
deriving DecidableEq

inductive Node (K V : Type) where
  | nil
  | node (left : Node K V) (item : Item K V) (right : Node K V)
deriving DecidableEq

/-- The parent of a node, with its other child. -/
inductive Parent (K V : Type) where
  | of_left (item : Item K V) (right : Node K V)
  | of_right (left : Node K V) (item : Item K V)
deriving DecidableEq

variable {K V : Type} [LinearOrder K] [AddCommGroup V]

namespace Node

def sum : Node K V → V
  | nil => 0
  | node _ item _ => item.sum

def size : Node K V → UInt32
  | nil => 0
  | node _ item _ => item.size

def maintain : Node K V → Node K V
  | nil => nil
  | node l item r => node l { item with size := 1 + l.size + r.size, sum := item.second + l.sum + r.sum } r

def leftRotate : Node K V → Node K V
  | node l rt (node rl pivot rr) => maintain (node (maintain (node l rt rl)) pivot rr)
  | t => t

def rightRotate : Node K V → Node K V
  | node (node ll pivot lr) rt r => maintain (node ll pivot (maintain (node lr rt r)))
  | t => t

def getDistance (key : K) : Node K V → V
  | nil => 0
  | node l x r =>
    if key > x.first then getDistance key r
    else if key = x.first then
      match l with
      | nil => x.sum
      | node _ y _ => x.sum - y.sum
    else
      match l with
      | nil => getDistance key l + x.sum
      | node _ y _ => getDistance key l + x.sum - y.sum

/-- The walk down to a key: the node of the key, or the null pointer where it would be, and the path
to it. -/
def descend (key : K) : Node K V → List (Parent K V) → Node K V × List (Parent K V)
  | nil, path => (nil, path)
  | node l p r, path =>
    if key < p.first then descend key l (.of_left p r :: path)
    else if key > p.first then descend key r (.of_right l p :: path)
    else (node l p r, path)

def subtreeMin : Node K V → List (Parent K V) → Node K V × List (Parent K V)
  | node (node ll y lr) x r, path => subtreeMin (node ll y lr) (.of_left x r :: path)
  | t, path => (t, path)

end Node

open Node

def Parent.link : Parent K V → Node K V → Node K V
  | .of_left p r, x => node x p r
  | .of_right l p, x => node l p x

def plug (x : Node K V) (path : List (Parent K V)) : Node K V := path.foldl (fun x p => p.link x) x

def Parent.maintain : Parent K V → Node K V → Parent K V
  | .of_left p r, x => .of_left { p with size := 1 + x.size + r.size, sum := p.second + x.sum + r.sum } r
  | .of_right l p, x => .of_right l { p with size := 1 + l.size + x.size, sum := p.second + l.sum + x.sum }

def maintain_parent (x : Node K V) : List (Parent K V) → List (Parent K V)
  | [] => []
  | p :: path => p.maintain x :: path

def splay_step : Node K V × List (Parent K V) → Node K V × List (Parent K V)
  | (x, []) => (x, [])
  -- zig
  | (x, [.of_left p r]) => (rightRotate (node x p r), [])
  | (x, [.of_right l p]) => (leftRotate (node l p x), [])
  -- zig zig
  | (x, .of_left p r :: .of_left g r' :: path) =>
    let t := rightRotate (rightRotate (node (node x p r) g r'))
    (t, maintain_parent t path)
  | (x, .of_right l p :: .of_right l' g :: path) =>
    let t := leftRotate (leftRotate (node l' g (node l p x)))
    (t, maintain_parent t path)
  -- zig zag
  | (x, .of_left p r :: .of_right l' g :: path) =>
    let t := leftRotate (maintain (node l' g (rightRotate (node x p r))))
    (t, maintain_parent t path)
  | (x, .of_right l p :: .of_left g r' :: path) =>
    let t := rightRotate (maintain (node (leftRotate (node l p x)) g r'))
    (t, maintain_parent t path)

def splay (x : Node K V) (path : List (Parent K V)) : Node K V := (splay_step^[path.length] (x, path)).1

end CacheSim.Splay

namespace CacheSim

open Splay Splay.Node

structure SplayTree (K V : Type) [Zero V] where
  root_ : Node K V := nil
  sum : V := 0
  node_count_ : UInt32 := 0
deriving DecidableEq

namespace SplayTree

variable {K V : Type} [LinearOrder K] [AddCommGroup V]

def getDistance (t : SplayTree K V) (key : K) : V := t.root_.getDistance key

/-- The value of a key that is there is replaced, and the sums stay as they are. -/
def insert (t : SplayTree K V) (key : K) (val : V) : SplayTree K V :=
  match t.root_.descend key [] with
  | (node l p r, path) => { t with root_ := plug (node l { p with second := val } r) path }
  | (nil, path) =>
    { t with
      root_ := splay (node nil { first := key, second := val, sum := val, size := 1 } nil) path
      node_count_ := t.node_count_ + 1
      sum := t.sum + val }

def find_ (t : SplayTree K V) (key : K) : SplayTree K V × Bool :=
  match t.root_.descend key [] with
  | (nil, _) => (t, false)
  | (x, path) => ({ t with root_ := splay x path }, true)

def remove (t : SplayTree K V) : Option (SplayTree K V) :=
  match t.root_ with
  | nil => some t
  | node left n right =>
    let t : SplayTree K V := { t with node_count_ := t.node_count_ - 1, sum := t.sum - n.second }
    if t.node_count_ = 0 then some { t with root_ := nil }
    else match left, right with
      | nil, nil => none
      | nil, right => some { t with root_ := right }
      | left, nil => some { t with root_ := left.maintain }
      | left, right =>
        let (nxt, path) := right.subtreeMin [.of_right left n]
        match splay nxt path with
        | node (node (node l x r) _ _) y r' => some { t with root_ := maintain (node (node l x r) y r') }
        | _ => none

def erase (t : SplayTree K V) (key : K) : Option (SplayTree K V) :=
  match t.find_ key with
  | (t, true) => t.remove
  | (t, false) => some t

end SplayTree

end CacheSim
