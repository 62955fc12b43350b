import Meow.Lib.BitWords

/-!
# Trees in level order

A tree with labelled edges is stored without pointers: the nodes are numbered level by level, and a
bit vector has for each node, in that order, one zero for each of its children and a one. The labels
of the edges are stored in the order of the zeros. Since the children of all the nodes, in order,
are all the nodes but the root, the zero of a child tells its number by the zeros up to it (rank),
and the bits of a node follow the one that ends the bits of the node before (select).

## Main definitions

* `bitmap`, `labels`, `below` — the bits, the labels, the children.
* `LevelOrder` — a list of nodes in level order.

## Main results

* `LevelOrder.child` — where the child of a node stands.
* `rank_child`, `select_child` — how it is found.
-/

namespace Meow.Louds

open List Prod

variable {N L : Type*} (kids : N → List (L × N))

/-- The bits of a node. -/
def row (n : N) : List Bool := List.replicate (kids n).length false ++ [true]

/-- The bits of nodes in a row. -/
def bitmap (nodes : List N) : List Bool := nodes.flatMap (row kids)

/-- The labels below nodes in a row. -/
def labels (nodes : List N) : List L := nodes.flatMap fun n => (kids n).map Prod.fst

/-- The children of nodes in a row. -/
def below (nodes : List N) : List N := nodes.flatMap fun n => (kids n).map Prod.snd

/-- The nodes of the tree under `root`, level by level. -/
def LevelOrder (root : N) (nodes : List N) : Prop := nodes = root :: below kids nodes

variable {kids}

lemma bitmap_cons (n : N) (nodes : List N) :
    bitmap kids (n :: nodes) = row kids n ++ bitmap kids nodes := flatMap_cons

lemma below_cons (n : N) (nodes : List N) :
    below kids (n :: nodes) = (kids n).map snd ++ below kids nodes := flatMap_cons

variable (nodes : List N)

lemma length_labels : (labels kids nodes).length = (below kids nodes).length := by
  simp only [labels, below, length_flatMap, length_map]

lemma length_bitmap : (bitmap kids nodes).length = nodes.length + (below kids nodes).length := by
  induction nodes with
  | nil => rfl
  | cons n nodes ih =>
    rw [bitmap_cons, length_append, below_cons, length_append, row, length_append, length_replicate,
      length_map, length_singleton, length_cons]
    omega

/-- There is one one for each node. -/
lemma countP_bitmap : (bitmap kids nodes).countP id = nodes.length := by
  induction nodes with
  | nil => rfl
  | cons n nodes ih =>
    rw [bitmap_cons, countP_append, row, countP_append, countP_replicate, length_cons]
    simp
    omega

/-- There is one zero for each child. -/
lemma countP_not_bitmap : (bitmap kids nodes).countP (fun b => !b) = (below kids nodes).length := by
  induction nodes with
  | nil => rfl
  | cons n nodes ih =>
    rw [bitmap_cons, countP_append, ih, below_cons, length_append, row, countP_append,
      countP_replicate]
    simp

section Node

variable {nodes} {root n c : N} {front back : List N} {l : L} {done todo : List (L × N)}

/-- The bits of nodes in a row, cut at a node. -/
lemma bitmap_append_cons (front back : List N) (n : N) :
    bitmap kids (front ++ n :: back) = bitmap kids front ++ (row kids n ++ bitmap kids back) := by
  rw [bitmap, flatMap_append]
  rfl

/-- The bit after the children of a node is one. -/
lemma getElem?_end (hnodes : nodes = front ++ n :: back) (pad : List Bool) :
    (bitmap kids nodes ++ pad)[(bitmap kids front).length + (kids n).length]? = some true := by
  rw [hnodes, bitmap_append_cons, row]
  simp only [append_assoc]
  simp

section Child

variable (hnodes : nodes = front ++ n :: back) (hkids : kids n = done ++ (l, c) :: todo)
include hnodes hkids

/-- **The place of a child** in level order: after the root and the children before it. -/
lemma LevelOrder.child (h : LevelOrder kids root nodes) :
    ∃ front' back', nodes = front' ++ c :: back' ∧
      front'.length = (below kids front).length + done.length + 1 := by
  refine ⟨root :: (below kids front ++ done.map snd),
    todo.map snd ++ below kids back, ?_, ?_⟩
  · have hbelow : below kids nodes =
        below kids front ++ ((done ++ (l, c) :: todo).map snd ++ below kids back) := by
      rw [hnodes, below, flatMap_append, flatMap_cons, hkids]
      rfl
    rw [LevelOrder, hbelow] at h
    rw [h]
    simp
  · simp

/-- The bit of a child is zero. -/
lemma getElem?_child (pad : List Bool) :
    (bitmap kids nodes ++ pad)[(bitmap kids front).length + done.length]? = some false := by
  rw [hnodes, bitmap_append_cons, row, hkids]
  simp only [append_assoc]
  rw [getElem?_append_right (Nat.le_add_right _ _), getElem?_append_left (by simp)]
  simp

/-- The label of a child. -/
lemma getElem?_label : (labels kids nodes)[(below kids front).length + done.length]? = some l := by
  rw [hnodes, labels, flatMap_append, flatMap_cons, hkids, ← labels, ← length_labels,
    getElem?_append_right (Nat.le_add_right _ _), Nat.add_sub_cancel_left, map_append, append_assoc,
    getElem?_append_right (by simp)]
  simp

/-- **Rank**: the zeros up to that of a child are as many as there are nodes before the child. -/
lemma rank_child (pad : List Bool) :
    ((bitmap kids nodes ++ pad).take ((bitmap kids front).length + done.length + 1)).countP
      (fun b => !b) = (below kids front).length + done.length + 1 := by
  have hsplit : bitmap kids nodes ++ pad =
      (bitmap kids front ++ replicate (done.length + 1) false) ++
        (replicate todo.length false ++ [true] ++ bitmap kids back ++ pad) := by
    rw [hnodes, bitmap_append_cons, row, hkids, length_append, length_cons,
      (by omega : done.length + (todo.length + 1) = (done.length + 1) + todo.length), replicate_add]
    simp only [append_assoc]
  rw [hsplit, take_left' (by simp; omega), countP_append, countP_not_bitmap, countP_replicate]
  simp
  omega

end Child

/-- **Select**: the bits of a node that is not the first follow a one, and that one is known by the
nodes before. -/
lemma select_child (hnodes : nodes = front ++ back) (hfront : front ≠ []) (pad : List Bool) :
    ((bitmap kids nodes ++ pad).findIdxs id 0)[front.length - 1]? =
      some ((bitmap kids front).length - 1) := by
  obtain ⟨front', m, rfl⟩ := eq_nil_or_concat front |>.resolve_left hfront
  have hsplit : bitmap kids nodes ++ pad =
      (bitmap kids front' ++ replicate (kids m).length false) ++
        true :: (bitmap kids back ++ pad) := by
    rw [hnodes, concat_eq_append, append_assoc, singleton_append, bitmap_append_cons, row]
    simp only [append_assoc, cons_append, nil_append]
  have hcount : (bitmap kids front' ++ replicate (kids m).length false).countP id =
      (front'.concat m).length - 1 := by
    rw [countP_append, countP_bitmap]
    simp
  rw [hsplit, ← hcount]
  rw [concat_eq_append, bitmap_append_cons, row]
  simp [bitmap]

end Node

end Meow.Louds
