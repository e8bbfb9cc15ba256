import BlockLedger.InclusionProof.Replay
import BlockLedger.Tree

/-!
# What is hashed

The byte strings that are hashed to build a tree (`Tree.hashed`), and those that are hashed to replay
a proof (`InclusionProof.hashed`). Statements that hold unless SHA-256 maps two different byte
strings to one digest speak of the strings in these two lists, and of no others.
-/

namespace BlockLedger

/-- What is hashed for the nodes of a subtree. -/
def Subtree.hashed : Subtree → List Bytes
  | .leaf _ l => [Digest.payloadInput l.payload]
  | .lone c _ => Digest.pairInput c.hash c.hash :: c.hashed
  | .pair l r _ => Digest.pairInput l.hash r.hash :: (l.hashed ++ r.hashed)

/-- **What is hashed to build a tree.** -/
def Tree.hashed (t : Tree) : List Bytes := (t.root?.map Subtree.hashed).getD []

/-- What is hashed for the places of a row that are to be derived. -/
def Level.hashed (width : Nat) (values : RowValues) (above : Level) : List Bytes :=
  above.entries.filterMap fun e =>
    if e.slot = .derived then
      (valuesBelow width values e.position).map fun v => Digest.pairInput v.1 v.2
    else none

/-- What is hashed for the rows above a row, as far as they can be made. -/
def hashedAbove (level : Nat) (below : Level) (values : RowValues) : List Level → List Bytes
  | [] => []
  | above :: rest =>
    match valuesAbove level below.width values above with
    | .error _ => []
    | .ok next => above.hashed below.width values ++ hashedAbove (level + 1) above next rest

namespace InclusionProof

/-- **What is hashed to replay a proof** with the leaves at hand. -/
def hashed (p : InclusionProof) (held : List HeldLeaf) : List Bytes :=
  held.map (fun l => Digest.payloadInput l.2) ++
    match p.levels with
    | [] => []
    | l :: ls =>
      match rowOfLeaves held l with
      | .error _ => []
      | .ok values => hashedAbove 1 l values ls

end InclusionProof

/-- Two different byte strings of a list have one digest. -/
def Clash (inputs : List Bytes) : Prop :=
  ∃ a ∈ inputs, ∃ b ∈ inputs, a ≠ b ∧ Digest.hash a = Digest.hash b

theorem Clash.mono {as bs : List Bytes} (h : ∀ a ∈ as, a ∈ bs) : Clash as → Clash bs := by
  rintro ⟨a, ha, b, hb, hne, heq⟩
  exact ⟨a, h a ha, b, h b hb, hne, heq⟩

end BlockLedger
