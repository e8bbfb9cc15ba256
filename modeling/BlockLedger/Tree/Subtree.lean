import BlockLedger.Digest
import BlockLedger.Tree.Pairing

/-!
# Subtrees

A subtree is a leaf at its position, two subtrees side by side, or one subtree alone: the last one of
a row of odd length. The hash of a pair is made of the hashes of the two; a lone subtree counts as
paired with a copy of itself, although it holds its leaves only once.

Each inner subtree keeps its hash. `Subtree.join` and `Subtree.wrap` are the only ways a tree makes
inner subtrees, and they compute it (`Subtree.Sound`).
-/

namespace BlockLedger

/-- **A leaf**: an identifier, a payload and the payload's digest. -/
structure Leaf where
  id : String
  payload : Bytes
  hash : Digest
  hash_eq : hash = Digest.ofPayload payload
  deriving DecidableEq

/-- The leaf for an identifier and a payload. -/
def Leaf.of (id : String) (payload : Bytes) : Leaf := ⟨id, payload, Digest.ofPayload payload, rfl⟩

@[simp] theorem Leaf.id_of (id : String) (payload : Bytes) : (Leaf.of id payload).id = id := rfl

@[simp] theorem Leaf.payload_of (id : String) (payload : Bytes) :
    (Leaf.of id payload).payload = payload := rfl

/-- **A part of a tree** under one node. -/
inductive Subtree where
  | leaf (position : Nat) (leaf : Leaf)
  | lone (child : Subtree) (hash : Digest)
  | pair (left right : Subtree) (hash : Digest)
  deriving DecidableEq

namespace Subtree

/-- The hash of a subtree. -/
def hash : Subtree → Digest
  | .leaf _ l => l.hash
  | .lone _ h => h
  | .pair _ _ h => h

/-- Two subtrees side by side. -/
def join (left right : Subtree) : Subtree := .pair left right (.ofPair left.hash right.hash)

/-- One subtree alone. -/
def wrap (child : Subtree) : Subtree := .lone child (.ofPair child.hash child.hash)

@[simp] theorem hash_leaf (p : Nat) (l : Leaf) : (Subtree.leaf p l).hash = l.hash := rfl

@[simp] theorem hash_join (a b : Subtree) : (join a b).hash = .ofPair a.hash b.hash := rfl

@[simp] theorem hash_wrap (a : Subtree) : (wrap a).hash = .ofPair a.hash a.hash := rfl

/-- Every inner subtree keeps the hash that belongs to it. -/
def Sound : Subtree → Prop
  | .leaf _ _ => True
  | .lone c h => h = .ofPair c.hash c.hash ∧ c.Sound
  | .pair l r h => h = .ofPair l.hash r.hash ∧ l.Sound ∧ r.Sound

theorem Sound.join {a b : Subtree} (ha : a.Sound) (hb : b.Sound) : (join a b).Sound := ⟨rfl, ha, hb⟩

theorem Sound.wrap {a : Subtree} (ha : a.Sound) : (wrap a).Sound := ⟨rfl, ha⟩

/-- The leaves with their positions, from left to right. -/
def leaves : Subtree → List (Nat × Leaf)
  | .leaf p l => [(p, l)]
  | .lone c _ => c.leaves
  | .pair l r _ => l.leaves ++ r.leaves

/-- The positions of the leaves, from left to right. -/
def positions (t : Subtree) : List Nat := t.leaves.map (·.1)

end Subtree

end BlockLedger
