import BlockLedger.Difference.Rounds
import BlockLedger.Proofs.Tree.Arrangement
import BlockLedger.Proofs.Tree.Difference
import Mathlib.Logic.Relation

/-!
# How a difference is listed

The leaves in which two subtrees differ are some of their leaves, in the same order
(`Subtree.difference_sublist`). The leaves of a tree stand in ascending order of their positions,
and so a difference lists no leaf twice, each with what it is in its tree (`Tree.lists_difference`).

**Rounds.** The comparison in rounds finds the same leaves in another order. When a pair of places
is on top of the stack, some rounds lead to the stack without it, and what they find are the entries
of the two subtrees' difference (`StoredTree.Settles`); whatever else is on the stack does not
matter. The induction goes upwards from the leaves of the local tree, as the pairs that come on the
stack instead are those of the places below (`StoredTree.settles_of_below`). The right pair is
settled before the left one, so this holds up to the order of the entries only.

Putting the entries in order gives the one list that is in order, and nothing is left for the
removal of repeated entries (`StoredTree.sorted_eq_of_perm`, `StoredTree.destutter_eq_self`).
-/

namespace BlockLedger

/-! ### Entries -/

/-- The other side. -/
def Side.other : Side → Side
  | .local => .remote
  | .remote => .local

/-- The tree of a side. -/
def Side.tree (t u : Tree) : Side → Tree
  | .local => t
  | .remote => u

namespace DifferingLeaf

/-- The same leaf on the other side. -/
def swap (e : DifferingLeaf) : DifferingLeaf := { e with side := e.side.other }

/-- An entry is of an earlier side, or at an earlier position of the same side. -/
def Precedes (e f : DifferingLeaf) : Prop :=
  e.side.rank < f.side.rank ∨ e.side = f.side ∧ e.position < f.position

theorem Precedes.ne_place {e f : DifferingLeaf} (h : e.Precedes f) :
    (e.side, e.position) ≠ (f.side, f.position) := by
  intro heq
  obtain ⟨hside, hposition⟩ := Prod.mk.inj heq
  rcases h with h | ⟨-, h⟩
  · rw [hside] at h
    exact Nat.lt_irrefl _ h
  · rw [hposition] at h
    exact Nat.lt_irrefl _ h

/-! The order of entries is a total one, and it tells all entries apart. -/

instance : Std.TransCmp order := by
  unfold order
  infer_instance

theorem order_total (e f : DifferingLeaf) : (e.order f).isLE || (f.order e).isLE := by
  rw [@Std.OrientedCmp.eq_swap _ order _ e f]
  cases f.order e <;> rfl

theorem order_antisymm {e f : DifferingLeaf} (h : (e.order f).isLE) (h' : (f.order e).isLE) :
    e = f := by
  have heq : e.order f = .eq := Std.OrientedCmp.isLE_antisymm h h'
  simp only [order, compareLex, compareOn, Ordering.then_eq_eq,
    Std.LawfulEqOrd.compare_eq_iff_eq] at heq
  obtain ⟨hside, hposition, hid, hhash⟩ := heq
  obtain ⟨side, p, id, d⟩ := e
  obtain ⟨side', p', id', d'⟩ := f
  obtain rfl : side = side' := by cases side <;> cases side' <;> trivial
  obtain rfl : d = d' := Digest.ext hhash
  obtain rfl : p = p' := hposition
  obtain rfl : id = id' := hid
  rfl

/-- What precedes comes first in the order of entries. -/
theorem Precedes.order_eq {e f : DifferingLeaf} (h : e.Precedes f) : e.order f = .lt := by
  rcases h with h | ⟨hside, h⟩
  · simp [order, compareLex, compareOn, Nat.compare_eq_lt.2 h]
  · simp [order, compareLex, compareOn, hside, Nat.compare_eq_lt.2 h]

end DifferingLeaf

/-- The leaves of either side as entries. -/
def TwoSided.entries (d : TwoSided) : List DifferingLeaf :=
  d.1.map (.of .local) ++ d.2.map (.of .remote)

theorem TwoSided.entries_local (xs : List (Nat × Leaf)) :
    TwoSided.entries (xs, []) = xs.map (.of .local) := List.append_nil _

theorem TwoSided.entries_remote (xs : List (Nat × Leaf)) :
    TwoSided.entries ([], xs) = xs.map (.of .remote) := rfl

theorem TwoSided.entries_append_perm (a b : TwoSided) :
    (a.append b).entries.Perm (a.entries ++ b.entries) := by
  rw [entries, entries, entries, append, List.map_append, List.map_append, List.append_assoc,
    List.append_assoc]
  -- the two lists in the middle change places
  refine List.Perm.append_left _ ?_
  rw [← List.append_assoc, ← List.append_assoc]
  exact List.Perm.append_right _ List.perm_append_comm

theorem TwoSided.entries_swap_perm (d : TwoSided) :
    TwoSided.entries d.swap |>.Perm (d.entries.map DifferingLeaf.swap) := by
  rw [entries, entries, List.map_append, List.map_map, List.map_map]
  exact List.perm_append_comm

/-! ### Differences of trees -/

/-- **The leaves in which two subtrees differ** are some of the local one's, in their order. -/
theorem Subtree.difference_sublist (a b : Subtree) : (a.difference b).1.Sublist a.leaves := by
  induction a generalizing b with
  | leaf p l =>
    rcases eq_or_ne (leaf p l).hash b.hash with h | h
    · rw [difference_of_hash_eq h]
      exact List.nil_sublist _
    · rw [difference_leaf_left h]
  | lone c d ih =>
    rcases eq_or_ne (lone c d).hash b.hash with h | h
    · rw [difference_of_hash_eq h]
      exact List.nil_sublist _
    · cases b with
      | leaf q l => rw [difference_leaf_right h]
      | lone c' e =>
        rw [difference_lone_lone h]
        exact ih c'
      | pair l' r' e =>
        rw [difference_lone_pair h]
        change ((c.difference l').1 ++ []).Sublist c.leaves
        rw [List.append_nil]
        exact ih l'
  | pair l r d ihl ihr =>
    rcases eq_or_ne (pair l r d).hash b.hash with h | h
    · rw [difference_of_hash_eq h]
      exact List.nil_sublist _
    · cases b with
      | leaf q l => rw [difference_leaf_right h]
      | lone c' e =>
        rw [difference_pair_lone h]
        exact (ihl c').append (List.Sublist.refl _)
      | pair l' r' e =>
        rw [difference_pair_pair h]
        exact (ihl l').append (ihr r')

namespace Tree

variable {t u : Tree}

/-- The leaves that differ on the local side stand in ascending order. -/
theorem pairwise_differingLeaves (t u : Tree) :
    (t.differingLeaves u).1.Pairwise fun x y => x.1 < y.1 := by
  have hroot : ∀ {a : Subtree}, t.root? = some a → a.leaves.Pairwise fun x y => x.1 < y.1 := by
    intro a ha
    rw [← List.pairwise_map (f := Prod.fst) (R := (· < ·))]
    change a.positions.Pairwise (· < ·)
    rw [positions_of_at? (at?_of_root? ha)]
    exact List.pairwise_lt_range'
  rw [differingLeaves]
  cases ha : t.root? with
  | none => cases u.root? <;> exact .nil
  | some a =>
    cases u.root? with
    | none => exact hroot ha
    | some b => exact (hroot ha).sublist (a.difference_sublist b)

/-- The leaves that differ on the local side are leaves of the local tree. -/
theorem leaf?_of_mem_differingLeaves {x : Nat × Leaf} (h : x ∈ (t.differingLeaves u).1) :
    t.leaf? x.1 = some x.2 := by
  have hroot : ∀ {a : Subtree}, t.root? = some a → x ∈ a.leaves → t.leaf? x.1 = some x.2 :=
    fun ha hx => ((mem_leaves_at?_iff (at?_of_root? ha)).1 hx).1
  rw [differingLeaves] at h
  cases ha : t.root? with
  | none => cases hb : u.root? <;> simp [ha, hb] at h
  | some a =>
    cases hb : u.root? with
    | none =>
      rw [ha, hb] at h
      exact hroot ha h
    | some b =>
      rw [ha, hb] at h
      exact hroot ha ((a.difference_sublist b).subset h)

end Tree

/-- **A difference lists leaves of two trees**: in ascending order, the local ones first, each with
the identifier and the hash that it has in its tree. -/
structure Difference.Lists (d : Difference) (t u : Tree) : Prop where
  ascending : d.entries.Pairwise DifferingLeaf.Precedes
  genuine : ∀ e ∈ d.entries, ∃ l, (e.side.tree t u).leaf? e.position = some l ∧
    l.id = e.id ∧ l.hash = e.hash

namespace Tree

variable {t u : Tree}

theorem entries_difference (t u : Tree) :
    (t.difference u).entries = (t.differingLeaves u).entries := rfl

theorem lists_difference (t u : Tree) : (t.difference u).Lists t u where
  ascending := by
    have hremote := pairwise_differingLeaves u t
    rw [differingLeaves_swap t u] at hremote
    rw [entries_difference, TwoSided.entries, List.pairwise_append, List.pairwise_map,
      List.pairwise_map]
    refine ⟨?_, ?_, ?_⟩
    · exact (pairwise_differingLeaves t u).imp fun h => .inr ⟨rfl, h⟩
    · exact hremote.imp fun h => .inr ⟨rfl, h⟩
    · intro e he f hf
      obtain ⟨x, -, rfl⟩ := List.mem_map.1 he
      obtain ⟨y, -, rfl⟩ := List.mem_map.1 hf
      exact .inl Nat.one_pos
  genuine := by
    intro e he
    rw [entries_difference, TwoSided.entries, List.mem_append, List.mem_map, List.mem_map] at he
    rcases he with ⟨x, hx, rfl⟩ | ⟨x, hx, rfl⟩
    · exact ⟨x.2, leaf?_of_mem_differingLeaves hx, rfl, rfl⟩
    · have hremote : x ∈ (u.differingLeaves t).1 := by rwa [differingLeaves_swap t u]
      exact ⟨x.2, leaf?_of_mem_differingLeaves hremote, rfl, rfl⟩

/-- **Compared the other way round**, two trees have the same entries with the sides exchanged. -/
theorem entries_difference_swap_perm (t u : Tree) :
    (u.difference t).entries.Perm ((t.difference u).entries.map DifferingLeaf.swap) := by
  rw [entries_difference, entries_difference, differingLeaves_swap t u]
  exact (t.differingLeaves u).entries_swap_perm

end Tree

/-! ### Rounds -/

namespace Comparison

/-- **Some rounds lead** from one state of a comparison to another. -/
def Leads (a b : StoredTree) : Comparison → Comparison → Prop :=
  Relation.ReflTransGen fun c c' => c.round a b = some c'

variable {a b : StoredTree}

theorem run_of_round {c c' : Comparison} (h : c.round a b = some c') : c.run a b = c'.run a b := by
  rw [run]
  split
  next hnone =>
    rw [h] at hnone
    cases hnone
  next hsome =>
    rw [h] at hsome
    cases hsome
    rfl

/-- Where rounds have led to an empty stack, the comparison has ended. -/
theorem Leads.run_eq {c : Comparison} {found : List DifferingLeaf}
    (h : Leads a b c ⟨[], found⟩) : c.run a b = found := by
  induction h using Relation.ReflTransGen.head_induction_on with
  | refl =>
    rw [run]
    rfl
  | head hround _ ih => rw [run_of_round hround, ih]

end Comparison

namespace StoredTree

open Comparison

/-- **An arena with its leaves holds a tree.** -/
structure Holds (a : StoredTree) (t : Tree) : Prop where
  stores : a.toArenaTree.Stores t
  leaves : a.leaves = t.leaves

theorem exists_holds (t : Tree) : ∃ a, build t.leaves = some a ∧ a.Holds t := by
  obtain ⟨a, ha, hstores⟩ := ArenaTree.exists_build t.leaves
  rw [t.ofLeaves_leaves] at hstores
  exact ⟨⟨a, t.leaves⟩, by rw [build, ha, Option.map_some], hstores, rfl⟩

variable {a b : StoredTree} {t u : Tree} {k k' q q' m n : Nat} {s s' : Subtree}

theorem Holds.entriesUnder_eq (h : a.Holds t) (side : Side) (hs : t.at? k q = some s) :
    a.entriesUnder side (t.firstNumber k + q) = s.leaves.map (.of side) := by
  have hfound : ∀ x ∈ s.leaves, (a.leaves[x.1]?.map fun l => DifferingLeaf.of side (x.1, l)) =
      some (.of side x) := by
    intro x hx
    have hleaf := ((Tree.mem_leaves_at?_iff hs).1 hx).1
    rw [Tree.leaf?, ← h.leaves] at hleaf
    rw [hleaf, Option.map_some]
  rw [entriesUnder, h.stores.leavesUnder_of_at? hs, Subtree.positions, List.filterMap_map]
  change s.leaves.filterMap (fun x => a.leaves[x.1]?.map _) = _
  rw [List.filterMap_congr hfound, List.filterMap_eq_map']

/-! ### Pairs on the stack -/

/-- **A pair of numbers is settled** with a difference: the rounds that take it from the stack find
the entries of the difference, whatever else is on the stack. -/
def Settles (a b : StoredTree) (m n : Nat) (d : TwoSided) : Prop :=
  ∀ pending found, ∃ entries,
    Leads a b ⟨(m, n) :: pending, found⟩ ⟨pending, found ++ entries⟩ ∧ entries.Perm d.entries

theorem leads_of_step {pairs : List (Nat × Nat)} {entries : List DifferingLeaf}
    (h : a.step b m n = (pairs, entries)) (pending : List (Nat × Nat))
    (found : List DifferingLeaf) :
    Leads a b ⟨(m, n) :: pending, found⟩ ⟨pairs ++ pending, found ++ entries⟩ := by
  have hround : round a b ⟨(m, n) :: pending, found⟩ =
      some ⟨(a.step b m n).1 ++ pending, found ++ (a.step b m n).2⟩ := rfl
  rw [h] at hround
  exact .single hround

/-- Nothing comes on the stack for the pair. -/
theorem settles_of_entries {entries : List DifferingLeaf} {d : TwoSided}
    (h : a.step b m n = ([], entries)) (hperm : entries.Perm d.entries) : a.Settles b m n d :=
  fun pending found => ⟨entries, leads_of_step h pending found, hperm⟩

/-- The pair on the left comes on the stack, and what stands on the right is found. -/
theorem settles_of_left {m' n' : Nat} {entries : List DifferingLeaf} {d d' : TwoSided}
    (h : a.step b m n = ([(m', n')], entries)) (hleft : a.Settles b m' n' d)
    (hperm : (d.entries ++ entries).Perm d'.entries) : a.Settles b m n d' := by
  intro pending found
  obtain ⟨lefts, hlefts, hd⟩ := hleft pending (found ++ entries)
  refine ⟨entries ++ lefts, ?_, List.perm_append_comm.trans ((hd.append_right _).trans hperm)⟩
  rw [← List.append_assoc]
  exact (leads_of_step h pending found).trans hlefts

/-- The pairs on either side come on the stack, the right one on top. -/
theorem settles_of_both {l l' r r' : Nat} {d d' : TwoSided}
    (h : a.step b m n = ([(r, r'), (l, l')], [])) (hleft : a.Settles b l l' d)
    (hright : a.Settles b r r' d') : a.Settles b m n (d.append d') := by
  intro pending found
  -- while the right pair is settled, the left one waits below it on the stack
  obtain ⟨rights, hrights, hd'⟩ := hright ((l, l') :: pending) found
  obtain ⟨lefts, hlefts, hd⟩ := hleft pending (found ++ rights)
  have hstep := leads_of_step h pending found
  rw [List.append_nil] at hstep
  refine ⟨rights ++ lefts, ?_, ?_⟩
  · rw [← List.append_assoc]
    exact (hstep.trans hrights).trans hlefts
  · exact List.perm_append_comm.trans ((hd.append hd').trans (d.entries_append_perm d').symm)

/-! ### Places on the stack -/

/-- Pairs whose nodes have one hash are dropped. -/
theorem settles_of_hash_eq {x y : Node} (hx : a.nodes[m]? = some x) (hy : b.nodes[n]? = some y)
    (h : x.hash = y.hash) : a.Settles b m n ([], []) := by
  have hstep : a.step b m n = ([], []) := by
    rw [step, hx, hy]
    exact if_pos h
  exact settles_of_entries hstep (.refl _)

theorem step_of_hash_ne {x y : Node} (hx : a.nodes[m]? = some x) (hy : b.nodes[n]? = some y)
    (h : x.hash ≠ y.hash) : a.step b m n = a.part b m n x y := by
  rw [step, hx, hy]
  exact if_neg h

/-- If one of the nodes is a leaf, the leaves under both of them are found. -/
theorem part_leaf_left (d : Digest) (p : Nat) (y : Node) :
    a.part b m n (.leaf d p) y =
      ([], a.entriesUnder .local m ++ b.entriesUnder .remote n) := rfl

theorem part_leaf_right (x : Node) (d : Digest) (p : Nat) :
    a.part b m n x (.leaf d p) =
      ([], a.entriesUnder .local m ++ b.entriesUnder .remote n) := by
  rcases x with _ | ⟨_, _, _ | _⟩ <;> rfl

theorem Holds.node?_eq (h : a.Holds t) (hs : t.at? k q = some s) :
    a.nodes[t.firstNumber k + q]? = some (s.node (startBelow 0 0 t.rows k) q) := by
  rw [h.stores.node?_eq, Tree.node?_of_at? hs]

theorem Holds.node?_wrap (h : a.Holds t) {c : Subtree} (hs : t.at? (k + 1) q = some c.wrap)
    (hwidth : t.width k ≤ 2 * q + 1) :
    a.nodes[t.firstNumber (k + 1) + q]? =
      some (.inner c.wrap.hash (t.firstNumber k + 2 * q) none) := by
  rw [h.stores.node?_eq, Tree.node?_inner hs, Tree.rightNumber?, if_neg (Nat.not_lt.2 hwidth)]

theorem Holds.node?_join (h : a.Holds t) {l r : Subtree} (hs : t.at? (k + 1) q = some (l.join r))
    (hr : t.at? k (2 * q + 1) = some r) :
    a.nodes[t.firstNumber (k + 1) + q]? =
      some (.inner (l.join r).hash (t.firstNumber k + 2 * q)
        (some (t.firstNumber k + (2 * q + 1)))) := by
  rw [h.stores.node?_eq, Tree.node?_inner hs, Tree.rightNumber?, if_pos (Tree.lt_width_of_at? hr)]

/-- Two subtrees that are not looked into: their leaves are found on either side. -/
theorem settles_of_leaves (ha : a.Holds t) (hb : b.Holds u) (hs : t.at? k q = some s)
    (hs' : u.at? k' q' = some s')
    (hstep : a.step b (t.firstNumber k + q) (u.firstNumber k' + q') =
      ([], a.entriesUnder .local (t.firstNumber k + q) ++
        b.entriesUnder .remote (u.firstNumber k' + q')))
    (hdifference : s.difference s' = (s.leaves, s'.leaves)) :
    a.Settles b (t.firstNumber k + q) (u.firstNumber k' + q') (s.difference s') := by
  refine settles_of_entries hstep ?_
  rw [ha.entriesUnder_eq .local hs, hb.entriesUnder_eq .remote hs', hdifference, TwoSided.entries]

/-- Two subtrees with children and with different hashes, once the pairs of places below are
settled. -/
theorem settles_of_below (ha : a.Holds t) (hb : b.Holds u) (hs : t.at? (k + 1) q = some s)
    (hs' : u.at? (k' + 1) q' = some s') (hne : s.hash ≠ s'.hash)
    (hbelow : ∀ {p p' c c'}, t.at? k p = some c → u.at? k' p' = some c' →
      a.Settles b (t.firstNumber k + p) (u.firstNumber k' + p') (c.difference c')) :
    a.Settles b (t.firstNumber (k + 1) + q) (u.firstNumber (k' + 1) + q') (s.difference s') := by
  rcases Tree.at?_succ_eq_some hs with ⟨c, hc, hwidth, rfl⟩ | ⟨l, r, hl, hr, rfl⟩
  · have hx := ha.node?_wrap hs (Nat.le_of_eq hwidth)
    rcases Tree.at?_succ_eq_some hs' with ⟨c', hc', hwidth', rfl⟩ | ⟨l', r', hl', hr', rfl⟩
    · have hy := hb.node?_wrap hs' (Nat.le_of_eq hwidth')
      have hdifference : c.wrap.difference c'.wrap = c.difference c' :=
        Subtree.difference_lone_lone hne
      refine settles_of_left (step_of_hash_ne hx hy hne) (hbelow hc hc') ?_
      rw [List.append_nil, hdifference]
    · -- the remote right child has no partner: it is reported before the left pair is looked at
      have hy := hb.node?_join hs' hr'
      have hdifference : c.wrap.difference (l'.join r') =
          (c.difference l').append ([], r'.leaves) := Subtree.difference_lone_pair hne
      refine settles_of_left (step_of_hash_ne hx hy hne) (hbelow hc hl') ?_
      rw [hb.entriesUnder_eq .remote hr', ← TwoSided.entries_remote, hdifference]
      exact (TwoSided.entries_append_perm _ _).symm
  · have hx := ha.node?_join hs hr
    rcases Tree.at?_succ_eq_some hs' with ⟨c', hc', hwidth', rfl⟩ | ⟨l', r', hl', hr', rfl⟩
    · -- the same with the local right child
      have hy := hb.node?_wrap hs' (Nat.le_of_eq hwidth')
      have hdifference : (l.join r).difference c'.wrap =
          (l.difference c').append (r.leaves, []) := Subtree.difference_pair_lone hne
      refine settles_of_left (step_of_hash_ne hx hy hne) (hbelow hl hc') ?_
      rw [ha.entriesUnder_eq .local hr, ← TwoSided.entries_local, hdifference]
      exact (TwoSided.entries_append_perm _ _).symm
    · have hy := hb.node?_join hs' hr'
      have hdifference : (l.join r).difference (l'.join r') =
          (l.difference l').append (r.difference r') := Subtree.difference_pair_pair hne
      rw [hdifference]
      exact settles_of_both (step_of_hash_ne hx hy hne) (hbelow hl hl') (hbelow hr hr')

/-- **The pair of two places** is settled with the difference of the subtrees there. -/
theorem settles_of_at? (ha : a.Holds t) (hb : b.Holds u) {k k' q q' : Nat} {s s' : Subtree}
    (hs : t.at? k q = some s) (hs' : u.at? k' q' = some s') :
    a.Settles b (t.firstNumber k + q) (u.firstNumber k' + q') (s.difference s') := by
  have hnode := ha.node?_eq hs
  have hnode' := hb.node?_eq hs'
  rcases eq_or_ne s.hash s'.hash with heq | hne
  · rw [Subtree.difference_of_hash_eq heq]
    exact settles_of_hash_eq hnode hnode' (by rw [Subtree.hash_node, Subtree.hash_node, heq])
  have hstep := step_of_hash_ne hnode hnode' (by rwa [Subtree.hash_node, Subtree.hash_node])
  -- down in both trees at once, until one of them is at its leaves
  cases k with
  | zero =>
    obtain ⟨l, -, rfl⟩ := Option.map_eq_some_iff.1 ((t.at?_zero q).symm.trans hs)
    exact settles_of_leaves ha hb hs hs' (hstep.trans (part_leaf_left _ _ _))
      (Subtree.difference_leaf_left hne)
  | succ k =>
    cases k' with
    | zero =>
      obtain ⟨l, -, rfl⟩ := Option.map_eq_some_iff.1 ((u.at?_zero q').symm.trans hs')
      exact settles_of_leaves ha hb hs hs' (hstep.trans (part_leaf_right _ _ _))
        (Subtree.difference_leaf_right hne)
    | succ k' =>
      exact settles_of_below ha hb hs hs' hne fun hc hc' => settles_of_at? ha hb hc hc'

/-! ### The end -/

/-- Entries that are put in order are those of the list that is in order already. -/
theorem sorted_eq_of_perm {found entries : List DifferingLeaf} (hperm : found.Perm entries)
    (hordered : entries.Pairwise DifferingLeaf.Precedes) : sorted found = entries := by
  have hle : entries.Pairwise fun e f => (e.order f).isLE :=
    hordered.imp fun h => by rw [h.order_eq]; rfl
  have hsorted := List.pairwise_mergeSort (fun _ _ _ => Std.TransCmp.isLE_trans)
    DifferingLeaf.order_total found
  refine List.Perm.eq_of_pairwise ?_ hsorted hle ((List.mergeSort_perm _ _).trans hperm)
  exact fun e f _ _ h h' => DifferingLeaf.order_antisymm h h'

/-- In an ordered list no entry stands next to its like. -/
theorem destutter_eq_self {entries : List DifferingLeaf}
    (hordered : entries.Pairwise DifferingLeaf.Precedes) : entries.destutter (· ≠ ·) = entries := by
  refine List.destutter_of_isChain _ _ (List.Pairwise.isChain (hordered.imp ?_))
  rintro e f h rfl
  exact h.ne_place rfl

/-- The root has the number of the first place of the last row. -/
theorem Holds.root?_of_some (h : a.Holds t) {r : Subtree} (hr : t.root? = some r) :
    a.root? = some (t.firstNumber (t.height - 1) + 0) :=
  h.stores.root?_of_leaves (Tree.leaves_ne_nil_of_height_pos (Tree.height_pos_of_root? hr))

theorem Holds.root?_of_none (h : a.Holds t) (hr : t.root? = none) : a.root? = none := by
  refine h.stores.root?_of_no_leaves ?_
  by_contra hne
  obtain ⟨r, hsome⟩ := Tree.exists_root? (Tree.height_pos hne)
  rw [hr] at hsome
  cases hsome

/-- **The rounds come to an end**, and what they have found are the entries of the difference. -/
theorem exists_leads (ha : a.Holds t) (hb : b.Holds u) :
    ∃ found, Leads a b (a.comparison b) ⟨[], found⟩ ∧ found.Perm (t.difference u).entries := by
  rw [Tree.entries_difference, Tree.differingLeaves, comparison]
  cases hr : t.root? with
  | none =>
    rw [ha.root?_of_none hr]
    cases hr' : u.root? with
    | none =>
      rw [hb.root?_of_none hr']
      exact ⟨[], .refl, .refl _⟩
    | some r' =>
      rw [hb.root?_of_some hr']
      refine ⟨_, .refl, ?_⟩
      rw [hb.entriesUnder_eq .remote (Tree.at?_of_root? hr'), ← TwoSided.entries_remote]
  | some r =>
    rw [ha.root?_of_some hr]
    cases hr' : u.root? with
    | none =>
      rw [hb.root?_of_none hr']
      refine ⟨_, .refl, ?_⟩
      rw [ha.entriesUnder_eq .local (Tree.at?_of_root? hr), ← TwoSided.entries_local]
    | some r' =>
      rw [hb.root?_of_some hr']
      exact settles_of_at? ha hb (Tree.at?_of_root? hr) (Tree.at?_of_root? hr') [] []

/-- **The rounds of a comparison end**, and no leaf has been found twice then; so there is no entry
that is removed as a repetition. -/
def EndsWithoutRepetition (a b : StoredTree) : Prop :=
  ∃ found, Leads a b (a.comparison b) ⟨[], found⟩ ∧
    (found.map fun e => (e.side, e.position)).Nodup ∧ (a.difference b).entries = sorted found

theorem difference_of_holds (ha : a.Holds t) (hb : b.Holds u) :
    a.EndsWithoutRepetition b ∧ a.difference b = t.difference u := by
  obtain ⟨found, hleads, hperm⟩ := exists_leads ha hb
  have hordered := (Tree.lists_difference t u).ascending
  have hsorted := sorted_eq_of_perm hperm hordered
  have hentries : (a.difference b).entries = (t.difference u).entries := by
    rw [difference, hleads.run_eq, hsorted, destutter_eq_self hordered]
  refine ⟨⟨found, hleads, ?_, hentries.trans hsorted.symm⟩, ?_⟩
  · rw [(hperm.map _).nodup_iff, List.nodup_iff_pairwise_ne, List.pairwise_map]
    exact hordered.imp DifferingLeaf.Precedes.ne_place
  · exact congrArg Difference.mk hentries

/-- **Comparing two trees in arenas.** The rounds end, whatever sizes the trees have, and find each
leaf of either side at most once. The difference lists leaves of the two trees in ascending order,
each with its identifier and its hash, and it is the same as without arenas. Compared the other way
round, the trees have the same entries with the sides exchanged. -/
theorem difference_listed (t u : Tree) :
    ∃ a b, build t.leaves = some a ∧ build u.leaves = some b ∧
      (a.EndsWithoutRepetition b ∧ b.EndsWithoutRepetition a) ∧
      ((a.difference b).Lists t u ∧ (b.difference a).Lists u t) ∧
      (b.difference a).entries.Perm ((a.difference b).entries.map DifferingLeaf.swap) ∧
      a.difference b = t.difference u := by
  obtain ⟨a, hbuild, ha⟩ := exists_holds t
  obtain ⟨b, hbuild', hb⟩ := exists_holds u
  obtain ⟨hends, heq⟩ := difference_of_holds ha hb
  obtain ⟨hends', heq'⟩ := difference_of_holds hb ha
  refine ⟨a, b, hbuild, hbuild', ⟨hends, hends'⟩, ?_⟩
  rw [heq, heq']
  exact ⟨⟨Tree.lists_difference t u, Tree.lists_difference u t⟩,
    Tree.entries_difference_swap_perm t u, rfl⟩

end StoredTree

end BlockLedger
