import BlockLedger.InclusionProof.Replay

/-!
# Well-formed proofs

Which proofs can be replayed with which leaves, said of all rows and places at once and not in the
order in which replaying meets them, and what the value of each place is then.
-/

namespace BlockLedger

/-- What stands at a place suits its row: leaves belong in the lowest row and derived values above
it. -/
def Slot.FitsLevel (level : Nat) : Slot → Prop
  | .leaf _ => level = 0
  | .derived => 0 < level
  | .supplied _ => True

namespace Level

/-- The positions of a row ascend and lie within its width. -/
def Ordered (l : Level) : Prop :=
  l.entries.Pairwise (·.position < ·.position) ∧ ∀ e ∈ l.entries, e.position < l.width

/-- There is a value at a position. -/
def Has (l : Level) (position : Nat) : Prop := ∃ e ∈ l.entries, e.position = position

/-- Whatever stands in a row is used in the row above. -/
def Used (below above : Level) : Prop :=
  ∀ e ∈ below.entries, above.derives (e.position / 2) = true

/-- Whatever is derived in a row finds its children in the row below. -/
def Fed (below above : Level) : Prop :=
  ∀ e ∈ above.entries, e.slot = .derived →
    below.Has (2 * e.position) ∧ (2 * e.position + 1 < below.width → below.Has (2 * e.position + 1))

/-- The number of places at which a row names a leaf. -/
def countLeaf (l : Level) (id : String) : Nat := l.leafIds.count id

end Level

namespace InclusionProof

/-- **A proof that can be replayed** with the leaves at hand. -/
structure WellFormed (p : InclusionProof) (held : List HeldLeaf) : Prop where
  held_ne_nil : held ≠ []
  levels_ne_nil : p.levels ≠ []
  width_pos : ∀ l, p.levels.head? = some l → 1 ≤ l.width
  width_halves : ∀ k below above, p.levels[k]? = some below → p.levels[k + 1]? = some above →
    below.width ≠ 1 ∧ above.width = (below.width + 1) / 2
  width_last : ∀ l, p.levels.getLast? = some l → l.width = 1
  ordered : ∀ l ∈ p.levels, l.Ordered
  fitting : ∀ (k : Nat) (l : Level), p.levels[k]? = some l → ∀ e ∈ l.entries, e.slot.FitsLevel k
  leaves_match : ∀ l, p.levels.head? = some l → ∀ id,
    l.countLeaf id = (held.map (·.1)).count id
  used : ∀ k below above, p.levels[k]? = some below → p.levels[k + 1]? = some above →
    below.Used above
  fed : ∀ k below above, p.levels[k]? = some below → p.levels[k + 1]? = some above →
    below.Fed above

end InclusionProof

end BlockLedger
