import BlockLedger.Json.Value
import BlockLedger.Json.Reader

/-!
# Metadata

The metadata of a block maps keys to values. It is kept as the list of its entries in strictly
ascending order of the keys, so a map has one representation (`Metadata.ext_get?`) and is written in
one way, whatever the order in which it was filled. Setting a key again replaces its value
(`Metadata.get?_insert`).

Keys are compared character by character by code point, which is the order of their UTF-8 forms.
-/

namespace BlockLedger

/-- **A map from keys to values**, as its entries in ascending order of the keys. -/
structure Metadata where
  entries : List (String × String)
  sorted : entries.Pairwise fun a b => a.1 < b.1
  deriving DecidableEq

namespace Metadata

theorem ext {a b : Metadata} (h : a.entries = b.entries) : a = b := by
  cases a; cases b; cases h; rfl

/-- The map without entries. -/
def empty : Metadata := ⟨[], .nil⟩

instance : Inhabited Metadata := ⟨empty⟩

/-- The value of a key. -/
def get? (m : Metadata) (key : String) : Option String :=
  m.entries.lookup key

/-! ### Setting a key -/

/-- Puts an entry in its place, or in the place of the one with its key. -/
def insertEntry (key value : String) : List (String × String) → List (String × String)
  | [] => [(key, value)]
  | e :: es =>
    if key < e.1 then (key, value) :: e :: es
    else if key = e.1 then (key, value) :: es
    else e :: insertEntry key value es

theorem mem_insertEntry {key value : String} {es : List (String × String)} {e : String × String}
    (h : e ∈ insertEntry key value es) : e = (key, value) ∨ e ∈ es := by
  induction es with
  | nil => simpa [insertEntry] using h
  | cons d ds ih =>
    rw [insertEntry] at h
    split at h
    · simpa using h
    · split at h
      · simp only [List.mem_cons] at h ⊢
        exact h.imp id .inr
      · simp only [List.mem_cons] at h ⊢
        rcases h with h | h
        · exact .inr (.inl h)
        · exact (ih h).imp id .inr

theorem sorted_insertEntry {key value : String} {es : List (String × String)}
    (h : es.Pairwise fun a b => a.1 < b.1) :
    (insertEntry key value es).Pairwise fun a b => a.1 < b.1 := by
  induction es with
  | nil => simp [insertEntry]
  | cons d ds ih =>
    obtain ⟨hd, hds⟩ := List.pairwise_cons.1 h
    rw [insertEntry]
    split
    next hlt =>
      refine List.pairwise_cons.2 ⟨fun e he => ?_, h⟩
      rcases List.mem_cons.1 he with rfl | he
      · exact hlt
      · exact String.lt_trans hlt (hd e he)
    next hnot =>
      split
      next heq => exact List.pairwise_cons.2 ⟨fun e he => heq ▸ hd e he, hds⟩
      next hne =>
        refine List.pairwise_cons.2 ⟨fun e he => ?_, ih hds⟩
        rcases mem_insertEntry he with rfl | he
        · rcases Std.lt_trichotomy key d.1 with h | h | h
          · exact absurd h hnot
          · exact absurd h hne
          · exact h
        · exact hd e he

/-- Sets a key, whether or not it had a value before. -/
def insert (m : Metadata) (key value : String) : Metadata :=
  ⟨insertEntry key value m.entries, sorted_insertEntry m.sorted⟩

/-- The map filled with the given pairs in order; of several values for one key the last one
counts. -/
def ofList (pairs : List (String × String)) : Metadata :=
  pairs.foldl (fun m p => m.insert p.1 p.2) empty

theorem lookup_cons {d : String × String} {ds : List (String × String)} {key : String} :
    (d :: ds).lookup key = if key = d.1 then some d.2 else ds.lookup key := by
  by_cases h : key = d.1
  · rw [if_pos h, h]
    exact List.lookup_cons_self
  · rw [if_neg h, show d = (d.1, d.2) from rfl, List.lookup_cons, beq_eq_false_iff_ne.2 h]

theorem lookup_insertEntry {key value other : String} {es : List (String × String)} :
    (insertEntry key value es).lookup other
      = if other = key then some value else es.lookup other := by
  induction es with
  | nil => rw [insertEntry, lookup_cons]
  | cons d ds ih =>
    rw [insertEntry]
    split
    next => rw [lookup_cons]
    next =>
      split
      next heq => grind [lookup_cons]
      next hne => grind [lookup_cons]

/-- Setting a key changes its value and no other. -/
theorem get?_insert (m : Metadata) (key value other : String) :
    (m.insert key value).get? other = if other = key then some value else m.get? other :=
  lookup_insertEntry

theorem lookup_eq_none_of_lt {es : List (String × String)} {key : String}
    (h : ∀ e ∈ es, key < e.1) : es.lookup key = none := by
  induction es with
  | nil => rfl
  | cons d ds ih =>
    have hd : key ≠ d.1 := fun e => String.lt_irrefl d.1 (e ▸ h d (by simp))
    rw [lookup_cons, if_neg hd]
    exact ih fun e he => h e (by simp [he])

theorem eq_of_lookup {as bs : List (String × String)}
    (ha : as.Pairwise fun a b => a.1 < b.1) (hb : bs.Pairwise fun a b => a.1 < b.1)
    (h : ∀ key, as.lookup key = bs.lookup key) : as = bs := by
  induction as generalizing bs with
  | nil =>
    cases bs with
    | nil => rfl
    | cons e es =>
      have := h e.1
      simp [lookup_cons] at this
  | cons d ds ih =>
    cases bs with
    | nil =>
      have := h d.1
      simp [lookup_cons] at this
    | cons e es =>
      obtain ⟨hd, hds⟩ := List.pairwise_cons.1 ha
      obtain ⟨he, hes⟩ := List.pairwise_cons.1 hb
      -- The least key of one list cannot lie below all keys of the other.
      have hkey : d.1 = e.1 := by
        rcases Std.lt_trichotomy d.1 e.1 with hlt | heq | hlt
        · have habsent : ∀ x ∈ e :: es, d.1 < x.1 := fun x hx => by
            rcases List.mem_cons.1 hx with rfl | hx
            · exact hlt
            · exact String.lt_trans hlt (he x hx)
          have := h d.1
          rw [lookup_eq_none_of_lt habsent] at this
          simp [lookup_cons] at this
        · exact heq
        · have habsent : ∀ x ∈ d :: ds, e.1 < x.1 := fun x hx => by
            rcases List.mem_cons.1 hx with rfl | hx
            · exact hlt
            · exact String.lt_trans hlt (hd x hx)
          have := h e.1
          rw [lookup_eq_none_of_lt habsent] at this
          simp [lookup_cons] at this
      have hval : d.2 = e.2 := by
        have := h d.1
        simpa [lookup_cons, ← hkey] using this
      have hrest : ∀ key, ds.lookup key = es.lookup key := by
        intro key
        by_cases hk : key = d.1
        · rw [hk, lookup_eq_none_of_lt hd, lookup_eq_none_of_lt fun x hx => hkey ▸ he x hx]
        · have := h key
          rwa [lookup_cons, lookup_cons, if_neg hk, if_neg (hkey ▸ hk)] at this
      rw [ih hds hes hrest, Prod.ext hkey hval]

/-- Maps with the same values are the same map. -/
theorem ext_get? {a b : Metadata} (h : ∀ key, a.get? key = b.get? key) : a = b :=
  ext (eq_of_lookup a.sorted b.sorted h)

/-! ### JSON -/

/-- The metadata as an object. -/
def toJson (m : Metadata) : Json.Value :=
  .object (m.entries.map fun e => (e.1, .text e.2))

/-- Reads one member into the metadata. -/
def readMember (m : Metadata) (key : String) : Json.Reader Metadata := do
  Json.Reader.colon
  let value ← Json.Reader.text "a string"
  pure (m.insert key value)

/-- Reads an object whose members are strings. -/
def read : Json.Reader Metadata := do
  match ← Json.Reader.peek with
  | none => Json.Reader.fail .cutShort
  | some '\x7b' =>
    Json.Reader.advance
    Json.Reader.objectBody readMember empty
  | some c => Json.Reader.wrongType "a map" c

end Metadata

end BlockLedger
