import BlockLedger.Tree
import Mathlib.Algebra.Ring.Nat
import Mathlib.Data.List.Chain
import Mathlib.Data.Nat.Log

/-!
# The rows of a tree

`rowsFrom` is a loop that joins a row until one subtree is left. What the loop does is said here once,
for all rows of a tree at once, and no later proof opens it:

* row `0` holds the leaves (`Tree.row_zero`), row `k + 1` is made of row `k` (`Tree.row_succ`), and
  only the last row has a single subtree (`Tree.one_lt_width`, `Tree.width_last`);
* so the widths halve, rounded up (`Tree.width_succ`), and the hash at a place is made of the hashes
  at the two places below it, the left one counting twice at the end of an odd row
  (`Tree.hashAt?_succ`).

The last statement is phrased with `digestAbove`, which speaks of any assignment of digests to
positions, so that the values a checker computes can be compared with the hashes of a tree row by
row.
-/

namespace BlockLedger

/-! ### Consecutive elements -/

/-- A relation holds between all neighbours of a list iff it holds between the elements at places `k`
and `k + 1`. -/
theorem isChain_iff_getElem? {α : Type} {R : α → α → Prop} {l : List α} :
    l.IsChain R ↔ ∀ (k : Nat) (a b : α), l[k]? = some a → l[k + 1]? = some b → R a b := by
  rw [List.isChain_iff_getElem]
  refine ⟨?_, ?_⟩
  · intro h k a b ha hb
    obtain ⟨hk, rfl⟩ := List.getElem?_eq_some_iff.1 ha
    obtain ⟨hk', rfl⟩ := List.getElem?_eq_some_iff.1 hb
    exact h k hk'
  · intro h k hk
    exact h k _ _ (List.getElem?_eq_getElem (by omega)) (List.getElem?_eq_getElem hk)

/-- The first of the elements behind `k` others stands at place `k`. -/
theorem getElem?_of_drop {α : Type} {l rest : List α} {k : Nat} {a : α}
    (h : l.drop k = a :: rest) : l[k]? = some a ∧ l.drop (k + 1) = rest := by
  refine ⟨?_, ?_⟩
  · rw [← List.head?_drop, h, List.head?_cons]
  · rw [← List.tail_drop, h, List.tail_cons]

/-! ### Digests of neighbouring places -/

/-- A position stands on the left or on the right below the one above it. -/
theorem eq_left_or_eq_right (q : Nat) : q = 2 * (q / 2) ∨ q = 2 * (q / 2) + 1 := by
  omega

/-- The first position under a place is the first one under the place below it on the left. -/
theorem start_left (k q : Nat) : 2 * q * 2 ^ k = q * 2 ^ (k + 1) := by
  rw [Nat.pow_succ', ← Nat.mul_assoc, Nat.mul_comm q]

theorem start_right (k q : Nat) : (2 * q + 1) * 2 ^ k = q * 2 ^ (k + 1) + 2 ^ k := by
  rw [Nat.succ_mul, start_left]

/-- The place below `q` on the right in a row of the given width; at the end of an odd row it is the
left one again. -/
def rightBelow (width q : Nat) : Nat :=
  if 2 * q + 1 < width then 2 * q + 1 else 2 * q

theorem rightBelow_of_lt {width q : Nat} (h : 2 * q + 1 < width) :
    rightBelow width q = 2 * q + 1 := if_pos h

theorem rightBelow_of_le {width q : Nat} (h : width ≤ 2 * q + 1) : rightBelow width q = 2 * q :=
  if_neg (Nat.not_lt.2 h)

/-- The digest of the two digests below `q`, in a row of the given width with digests `f`. -/
def digestAbove (width : Nat) (f : Nat → Option Digest) (q : Nat) : Option Digest :=
  (f (2 * q)).bind fun left => (f (rightBelow width q)).map fun right => .ofPair left right

theorem digestAbove_eq_some_iff {width : Nat} {f : Nat → Option Digest} {q : Nat} {d : Digest} :
    digestAbove width f q = some d ↔
      ∃ left right, f (2 * q) = some left ∧ f (rightBelow width q) = some right ∧
        Digest.ofPair left right = d := by
  simp only [digestAbove, Option.bind_eq_some_iff, Option.map_eq_some_iff]
  refine ⟨?_, ?_⟩
  · rintro ⟨left, hl, right, hr, h⟩
    exact ⟨left, right, hl, hr, h⟩
  · rintro ⟨left, right, hl, hr, h⟩
    exact ⟨left, hl, right, hr, h⟩

/-! ### The loop -/

theorem rowAbove_ne_nil {row : List Subtree} (h : row ≠ []) : rowAbove row ≠ [] := by
  have hpos : 0 < row.length := List.length_pos_of_ne_nil h
  have hlen := length_rowAbove row
  exact List.ne_nil_of_length_pos (by omega)

/-- The lowest of the rows is the one the loop starts with. -/
theorem getElem?_zero_rowsFrom (row : List Subtree) : (rowsFrom row)[0]? = some row := by
  rw [rowsFrom]
  split <;> rfl

/-- Each row is made of the row below it, and is made only if that row has two subtrees or more. -/
theorem isChain_rowsFrom (row : List Subtree) :
    (rowsFrom row).IsChain fun below above => above = rowAbove below ∧ 1 < below.length := by
  fun_induction rowsFrom row with
  | case1 row h => exact List.isChain_singleton _
  | case2 row h ih =>
    -- the loop goes on with the row above, so that row stands first behind this one
    refine ih.cons fun above habove => ?_
    rw [List.head?_eq_getElem?, getElem?_zero_rowsFrom, Option.mem_some_iff] at habove
    exact ⟨habove.symm, by omega⟩

/-- The loop ends with a single subtree. -/
theorem length_getLast_rowsFrom {row last : List Subtree} (h : row ≠ [])
    (hlast : (rowsFrom row).getLast? = some last) : last.length = 1 := by
  fun_induction rowsFrom row with
  | case1 row hle =>
    obtain rfl : row = last := by simpa using hlast
    have hpos : 0 < row.length := List.length_pos_of_ne_nil h
    omega
  | case2 row hlt ih =>
    -- the last row of all is the last one from the row above on
    refine ih (rowAbove_ne_nil h) ?_
    have hne : rowsFrom (rowAbove row) ≠ [] := by
      intro hnil
      have hhead := getElem?_zero_rowsFrom (rowAbove row)
      rw [hnil] at hhead
      cases hhead
    rwa [List.getLast?_cons_of_ne_nil hne] at hlast

/-- Numbers that halve, rounded up, until one is left: their count is the logarithm of the first
one, rounded up. -/
theorem clog_of_halving {w : Nat → Nat} {n : Nat} (hpos : 0 < w 0)
    (hhalves : ∀ k < n, w k ≠ 1 ∧ w (k + 1) = (w k + 1) / 2) (hlast : w n = 1) :
    Nat.clog 2 (w 0) = n := by
  induction n generalizing w with
  | zero => rw [hlast, Nat.clog_of_right_le_one (Nat.le_refl 1)]
  | succ n ih =>
    obtain ⟨hne, hhalf⟩ := hhalves 0 (Nat.succ_pos n)
    rw [Nat.clog_of_two_le Nat.one_lt_two (by omega)]
    -- the numbers from the second one on are one fewer
    have hrest : Nat.clog 2 (w 1) = n :=
      ih (w := fun k => w (k + 1)) (by omega) (fun k hk => hhalves (k + 1) (by omega)) hlast
    have hsecond : (w 0 + 2 - 1) / 2 = w 1 := hhalf.symm
    rw [hsecond, hrest]

namespace Tree

variable (t : Tree)

/-! ### Rows and widths -/

theorem rows_of_leaves {t : Tree} (h : t.leaves ≠ []) : t.rows = rowsFrom (leafRow t.leaves) := by
  rw [t.rows_eq, rowsOver, if_neg (by simpa using h)]

theorem rows_of_no_leaves {t : Tree} (h : t.leaves = []) : t.rows = [] := by
  rw [t.rows_eq, rowsOver, if_pos (by simpa using h)]

theorem leaves_ne_nil_of_height_pos {t : Tree} (h : 0 < t.height) : t.leaves ≠ [] := by
  intro hnil
  rw [height, rows_of_no_leaves hnil] at h
  exact absurd h (by decide)

theorem height_pos {t : Tree} (h : t.leaves ≠ []) : 0 < t.height := by
  rw [height, List.length_pos_iff]
  intro hnil
  have hhead := getElem?_zero_rowsFrom (leafRow t.leaves)
  rw [← rows_of_leaves h, hnil] at hhead
  cases hhead

/-- A row that a tree has stands in its list of rows. -/
theorem getElem?_rows {t : Tree} {k : Nat} (h : k < t.height) : t.rows[k]? = some (t.row k) := by
  rw [row, List.getD_eq_getElem?_getD, List.getElem?_eq_getElem h, Option.getD_some]

/-- **The lowest row** holds the leaves. -/
theorem row_zero : t.row 0 = leafRow t.leaves := by
  rw [row, List.getD_eq_getElem?_getD]
  by_cases h : t.leaves = []
  · -- there is no row, and the one that is missing counts as empty
    rw [rows_of_no_leaves h, h]
    rfl
  · rw [rows_of_leaves h, getElem?_zero_rowsFrom, Option.getD_some]

private theorem row_succ_and_width {t : Tree} {k : Nat} (h : k + 1 < t.height) :
    t.row (k + 1) = rowAbove (t.row k) ∧ 1 < (t.row k).length := by
  -- what the loop says of all neighbouring rows, read at this one
  have hrows := rows_of_leaves (leaves_ne_nil_of_height_pos (Nat.zero_lt_of_lt h))
  have hchain := isChain_rowsFrom (leafRow t.leaves)
  rw [← hrows, isChain_iff_getElem?] at hchain
  exact hchain k _ _ (getElem?_rows (Nat.lt_of_succ_lt h)) (getElem?_rows h)

/-- **Each row above the leaves** is made of the row below it. -/
theorem row_succ {t : Tree} {k : Nat} (h : k + 1 < t.height) :
    t.row (k + 1) = rowAbove (t.row k) :=
  (row_succ_and_width h).1

/-- Only the last row has a single subtree. -/
theorem one_lt_width {t : Tree} {k : Nat} (h : k + 1 < t.height) : 1 < t.width k :=
  (row_succ_and_width h).2

theorem width_zero : t.width 0 = t.leafCount := by
  rw [width, row_zero, length_leafRow, leafCount]

theorem width_succ {t : Tree} {k : Nat} (h : k + 1 < t.height) :
    t.width (k + 1) = (t.width k + 1) / 2 := by
  rw [width, row_succ h, length_rowAbove, width]

/-- **A row has a place** iff the first of the `2 ^ k` positions under it is that of a leaf. -/
theorem lt_width_iff {t : Tree} {k q : Nat} (h : k < t.height) :
    q < t.width k ↔ q * 2 ^ k < t.leafCount := by
  induction k generalizing q with
  | zero => rw [width_zero, Nat.pow_zero, Nat.mul_one]
  | succ k ih =>
    have hchild : q < (t.width k + 1) / 2 ↔ 2 * q < t.width k := by omega
    rw [width_succ h, hchild, ih (Nat.lt_of_succ_lt h), start_left]

/-- The width of a row is the number of leaves by `2 ^ k`, rounded up. -/
theorem width_eq_ceil {t : Tree} {k : Nat} (h : k < t.height) :
    t.width k = (t.leafCount + 2 ^ k - 1) / 2 ^ k := by
  have hpos : 0 < 2 ^ k := Nat.two_pow_pos k
  refine eq_of_forall_lt_iff fun q => ?_
  rw [lt_width_iff h, ← Nat.succ_le_iff (n := (t.leafCount + 2 ^ k - 1) / 2 ^ k),
    Nat.le_div_iff_mul_le hpos, Nat.succ_mul]
  omega

theorem getLast?_rows {t : Tree} (h : 0 < t.height) :
    t.rows.getLast? = some (t.row (t.height - 1)) := by
  rw [List.getLast?_eq_getElem?]
  exact getElem?_rows (Nat.sub_lt h Nat.one_pos)

theorem width_last {t : Tree} (h : 0 < t.height) : t.width (t.height - 1) = 1 := by
  have hleaves := leaves_ne_nil_of_height_pos h
  have hrow : leafRow t.leaves ≠ [] := by
    rw [← List.length_pos_iff, length_leafRow]
    exact List.length_pos_of_ne_nil hleaves
  have hlast := getLast?_rows h
  rw [rows_of_leaves hleaves] at hlast
  exact length_getLast_rowsFrom hrow hlast

/-- The number of leaves tells the height of a tree. -/
theorem clog_leafCount {t : Tree} (h : 0 < t.height) :
    Nat.clog 2 t.leafCount = t.height - 1 := by
  rw [← width_zero]
  refine clog_of_halving ?_ (fun k hk => ⟨?_, width_succ (by omega)⟩) (width_last h)
  · rw [width_zero, leafCount]
    exact List.length_pos_of_ne_nil (leaves_ne_nil_of_height_pos h)
  · exact Nat.ne_of_gt (one_lt_width (by omega))

/-- The root stands alone in the last row. -/
theorem root?_eq_at? {t : Tree} (h : 0 < t.height) : t.root? = t.at? (t.height - 1) 0 := by
  rw [root?, getLast?_rows h, Option.bind_some, at?, List.head?_eq_getElem?]

theorem rootHash?_eq_hashAt? {t : Tree} (h : 0 < t.height) :
    t.rootHash? = t.hashAt? (t.height - 1) 0 := by
  rw [rootHash?, root?_eq_at? h, hashAt?]

/-! ### Trees of one size -/

/-- The widths of the rows depend on the number of leaves alone. -/
theorem map_length_rowsFrom_congr {row row' : List Subtree} (h : row.length = row'.length) :
    (rowsFrom row).map List.length = (rowsFrom row').map List.length := by
  fun_induction rowsFrom row generalizing row' with
  | case1 row hle =>
    rw [rowsFrom, if_pos (by omega), List.map_singleton, List.map_singleton, h]
  | case2 row hlt ih =>
    -- rows of one length are joined into rows of one length, so both loops go on or neither
    have habove : (rowAbove row).length = (rowAbove row').length := by
      rw [length_rowAbove, length_rowAbove, h]
    rw [rowsFrom.eq_def row', if_neg (by omega), List.map_cons, List.map_cons, h, ih habove]

theorem map_length_rows_congr {t u : Tree} (h : u.leafCount = t.leafCount) :
    u.rows.map List.length = t.rows.map List.length := by
  rw [leafCount, leafCount] at h
  by_cases hnil : t.leaves = []
  · rw [hnil, List.length_nil, List.length_eq_zero_iff] at h
    rw [rows_of_no_leaves hnil, rows_of_no_leaves h]
  · have hne : u.leaves ≠ [] := by
      rw [← List.length_pos_iff, h]
      exact List.length_pos_of_ne_nil hnil
    rw [rows_of_leaves hnil, rows_of_leaves hne]
    exact map_length_rowsFrom_congr (by rw [length_leafRow, length_leafRow, h])

theorem height_congr {t u : Tree} (h : u.leafCount = t.leafCount) : u.height = t.height := by
  have hlen := congrArg List.length (map_length_rows_congr h)
  rwa [List.length_map, List.length_map] at hlen

theorem width_eq_getD (k : Nat) : t.width k = (t.rows.map List.length).getD k 0 := by
  rw [width, row, List.getD_eq_getElem?_getD, List.getD_eq_getElem?_getD, List.getElem?_map]
  cases t.rows[k]? <;> rfl

theorem width_congr {t u : Tree} (h : u.leafCount = t.leafCount) (k : Nat) :
    u.width k = t.width k := by
  rw [width_eq_getD, width_eq_getD, map_length_rows_congr h]

/-! ### Subtrees at places -/

theorem at?_zero (q : Nat) : t.at? 0 q = t.leaves[q]?.map (Subtree.leaf q) := by
  rw [at?, row_zero, leafRow, List.getElem?_map, List.getElem?_zipIdx]
  cases t.leaves[q]? <;> simp

/-- A place that is taken belongs to a row that the tree has. -/
theorem lt_height_of_at? {t : Tree} {k q : Nat} {s : Subtree} (h : t.at? k q = some s) :
    k < t.height := by
  by_contra hk
  rw [at?, row, List.getD_eq_getElem?_getD, List.getElem?_eq_none (Nat.not_lt.1 hk)] at h
  cases h

theorem lt_width_of_at? {t : Tree} {k q : Nat} {s : Subtree} (h : t.at? k q = some s) :
    q < t.width k :=
  (List.getElem?_eq_some_iff.1 h).1

theorem exists_at? {t : Tree} {k q : Nat} (h : q < t.width k) : ∃ s, t.at? k q = some s :=
  ⟨_, List.getElem?_eq_getElem h⟩

/-- **A subtree above the leaves** is made of the two subtrees below it, or of one that stands alone
at the end of its row. -/
theorem at?_succ_eq_some {t : Tree} {k q : Nat} {s : Subtree} (h : t.at? (k + 1) q = some s) :
    (∃ c, t.at? k (2 * q) = some c ∧ t.width k = 2 * q + 1 ∧ s = c.wrap) ∨
      ∃ l r, t.at? k (2 * q) = some l ∧ t.at? k (2 * q + 1) = some r ∧ s = l.join r := by
  have hk := lt_height_of_at? h
  rw [at?, row_succ hk, rowAbove, getElem?_pairUp, joinAt] at h
  simp only [at?]
  cases hl : (t.row k)[2 * q]? with
  | none =>
    rw [hl] at h
    cases h
  | some l =>
    cases hr : (t.row k)[2 * q + 1]? with
    | none =>
      rw [hl, hr] at h
      cases h
      -- nothing stands at the right place, so the row ends with the left one
      have hlt : 2 * q < t.width k := lt_width_of_at? hl
      have hle : t.width k ≤ 2 * q + 1 := List.getElem?_eq_none_iff.1 hr
      exact .inl ⟨l, rfl, by omega, rfl⟩
    | some r =>
      rw [hl, hr] at h
      cases h
      exact .inr ⟨l, r, rfl, rfl, rfl⟩

/-- **The leaves under a place** are those at the positions from the first one under it to the last
one under it that there is. -/
theorem positions_of_at? {t : Tree} {k q : Nat} {s : Subtree} (h : t.at? k q = some s) :
    s.positions = List.range' (q * 2 ^ k) (min t.leafCount ((q + 1) * 2 ^ k) - q * 2 ^ k) := by
  induction k generalizing q s with
  | zero =>
    have hq : q < t.leafCount := width_zero (t := t) ▸ lt_width_of_at? h
    rw [at?_zero, Option.map_eq_some_iff] at h
    obtain ⟨l, -, rfl⟩ := h
    have hone : min t.leafCount (q + 1) - q = 1 := by omega
    rw [Nat.pow_zero, Nat.mul_one, Nat.mul_one, hone]
    rfl
  | succ k ih =>
    -- where the places below and the next one in this row start
    have hnext : (2 * q + 1 + 1) * 2 ^ k = q * 2 ^ (k + 1) + 2 ^ k + 2 ^ k := by
      rw [Nat.succ_mul, start_right]
    have hend : (q + 1) * 2 ^ (k + 1) = q * 2 ^ (k + 1) + 2 ^ k + 2 ^ k := by
      rw [Nat.succ_mul, Nat.pow_succ, Nat.mul_two, Nat.add_assoc]
    have hright := lt_width_iff (q := 2 * q + 1) (Nat.lt_of_succ_lt (lt_height_of_at? h))
    rcases at?_succ_eq_some h with ⟨c, hc, hwidth, rfl⟩ | ⟨l, r, hl, hr, rfl⟩
    · -- the leaves end under the child, before those of the missing place would start
      have hpositions : c.wrap.positions = c.positions := rfl
      have hlast : t.leafCount ≤ q * 2 ^ (k + 1) + 2 ^ k := by
        rw [start_right] at hright
        omega
      rw [hpositions, ih hc, start_left, start_right, hend, Nat.min_eq_left hlast,
        Nat.min_eq_left (Nat.le_add_right_of_le hlast)]
    · -- the left child has all the leaves it has room for, and those of the right one follow
      have hpositions : (l.join r).positions = l.positions ++ r.positions := List.map_append
      have hmore : q * 2 ^ (k + 1) + 2 ^ k < t.leafCount := by
        rw [← start_right]
        exact hright.1 (lt_width_of_at? hr)
      rw [hpositions, ih hl, ih hr, start_left, hnext, start_right, hend,
        Nat.min_eq_right (Nat.le_of_lt hmore), Nat.add_sub_cancel_left, List.range'_append_1]
      have hpos : 0 < 2 ^ k := Nat.two_pow_pos k
      congr 1
      omega

/-! ### Hashes -/

theorem isSome_hashAt?_iff {k q : Nat} : (t.hashAt? k q).isSome ↔ q < t.width k := by
  rw [hashAt?, at?, Option.isSome_map, isSome_getElem?, width]

/-- A tree with leaves has a root. -/
theorem exists_rootHash? {t : Tree} (h : t.leaves ≠ []) : ∃ d, t.rootHash? = some d := by
  have hheight := height_pos h
  rw [← Option.isSome_iff_exists, rootHash?_eq_hashAt? hheight, isSome_hashAt?_iff,
    width_last hheight]
  exact Nat.one_pos

theorem hashAt?_zero (q : Nat) : t.hashAt? 0 q = t.leaves[q]?.map Leaf.hash := by
  rw [hashAt?, at?_zero, Option.map_map]
  rfl

/-- **The hash above the leaves** is that of the two hashes below. -/
theorem hashAt?_succ {t : Tree} {k : Nat} (h : k + 1 < t.height) (q : Nat) :
    t.hashAt? (k + 1) q = digestAbove (t.width k) (t.hashAt? k) q := by
  simp only [hashAt?, at?, row_succ h, rowAbove, getElem?_pairUp, joinAt, digestAbove]
  by_cases hright : 2 * q + 1 < t.width k
  · rw [rightBelow_of_lt hright, List.getElem?_eq_getElem (Nat.lt_of_succ_lt hright),
      List.getElem?_eq_getElem hright]
    rfl
  · -- the row ends with the place on the left, or before it
    rw [rightBelow_of_le (Nat.not_lt.1 hright),
      List.getElem?_eq_none (i := 2 * q + 1) (Nat.not_lt.1 hright)]
    cases (t.row k)[2 * q]? <;> rfl

end Tree

end BlockLedger
