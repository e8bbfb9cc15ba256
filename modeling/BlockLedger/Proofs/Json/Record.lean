import BlockLedger.Json.Reader
import Mathlib.Tactic.SplitIfs

/-!
# What a reader of records guarantees

A record is put together field by field, and one of its required fields may have to be of a certain
kind. Then so is the field of every record that is read, whether it was written as an object or as an
array: a required field is read before the record is given back, and no other field changes what has
been read (`Record.yields_read`).

The invariant of both loops is that the record has the property as soon as the field has been read.
In an object the keys that have been read are at hand (`Record.yields_member`), in an array the fields
that are still to come (`Record.yields_fromElements`).
-/

namespace BlockLedger.Json

variable {α β : Type}

namespace Reader

/-- Whatever the reader reads has a property. -/
def Yields (r : Reader α) (P : α → Prop) : Prop :=
  ∀ cs a rest, r cs = .ok (a, rest) → P a

theorem yields_fail (f : Fault) (P : α → Prop) : (fail f : Reader α).Yields P := by
  intro cs a rest h
  cases h

theorem yields_mismatch (m : Mismatch) (P : α → Prop) : (mismatch m : Reader α).Yields P :=
  yields_fail _ P

theorem yields_pure {a : α} {P : α → Prop} (h : P a) : (pure a : Reader α).Yields P := by
  intro cs b rest hb
  cases hb
  exact h

/-- What is read last has its property, given that of what was read before. -/
theorem Yields.bind {r : Reader α} {f : α → Reader β} {P : α → Prop} {Q : β → Prop}
    (hr : r.Yields P) (hf : ∀ a, P a → (f a).Yields Q) : (r >>= f).Yields Q := by
  intro cs b rest h
  rw [bind_apply] at h
  cases hcs : r cs with
  | error e =>
    rw [hcs] at h
    cases h
  | ok v =>
    obtain ⟨a, rest'⟩ := v
    rw [hcs] at h
    exact hf a (hr cs a rest' hcs) rest' b rest h

/-- Nothing need be known of what was read before. -/
theorem yields_bind {r : Reader α} {f : α → Reader β} {Q : β → Prop}
    (hf : ∀ a, (f a).Yields Q) : (r >>= f).Yields Q :=
  Yields.bind (P := fun _ => True) (fun _ _ _ _ => trivial) fun a _ => hf a

/-- A value that is put into what was there before. -/
theorem yields_bind_pure {r : Reader α} {f : α → β} {Q : β → Prop} (hf : ∀ a, Q (f a)) :
    (r >>= fun a => pure (f a)).Yields Q :=
  yields_bind fun a => yields_pure (hf a)

theorem yields_wrongType (expected : String) (c : Char) (P : α → Prop) :
    (wrongType expected c : Reader α).Yields P := by
  have hend : (mismatch (.wrongType expected) : Reader α).Yields P := yields_mismatch _ P
  unfold wrongType
  -- whichever value stands there, it is refused after it has been skipped
  split_ifs
  · exact hend
  · exact yields_bind fun _ => yields_bind fun _ => hend
  · exact yields_bind fun _ => yields_bind fun _ => hend
  · exact yields_bind fun _ => yields_bind fun _ => hend
  · exact yields_bind fun _ => yields_bind fun _ => hend
  · exact yields_bind fun _ => hend
  · exact yields_bind fun _ => hend

/-- The members of an object keep what each of them keeps. -/
theorem yields_members {member : α → String → Reader α} {P : α → Prop}
    (hmember : ∀ a key, P a → (member a key).Yields P) (n : Nat) (first : Bool) {a : α} (ha : P a) :
    (members member n first a).Yields P := by
  induction n generalizing first a with
  | zero => exact yields_fail _ P
  | succ n ih =>
    rw [members]
    refine yields_bind fun more => ?_
    cases more with
    | true => exact yields_bind fun key => (hmember a key ha).bind fun b hb => ih false hb
    | false => exact yields_bind fun _ => yields_pure ha

end Reader

namespace Record

variable {r : Record α} {P : α → Prop} {key : String}

/-- The field with the given key is required and makes the property true, and no field makes it
false. -/
structure Guards (r : Record α) (key : String) (P : α → Prop) : Prop where
  has : ∃ f ∈ r.fields, f.key = key
  required : ∀ f ∈ r.fields, f.key = key → f.required = true
  sets : ∀ f ∈ r.fields, f.key = key → ∀ a, (f.read a).Yields P
  keeps : ∀ f ∈ r.fields, ∀ a, P a → (f.read a).Yields P

/-- A member of an object leaves the property true once the guarded field has been read. -/
theorem Guards.yields_member (h : r.Guards key P) {state : α × List String}
    (hstate : key ∈ state.2 → P state.1) (name : String) :
    (r.member state name).Yields fun state' => key ∈ state'.2 → P state'.1 := by
  rw [member]
  cases hfind : r.fields.find? (·.key = name) with
  | none =>
    exact Reader.yields_bind fun _ => Reader.yields_bind fun _ => Reader.yields_pure hstate
  | some f =>
    have hf : f ∈ r.fields := List.mem_of_find?_eq_some hfind
    have hname : f.key = name := by simpa using List.find?_some hfind
    simp only
    split
    · exact Reader.yields_mismatch _ _
    · refine Reader.yields_bind fun _ => ?_
      -- the field sets the property, keeps it, or leaves the guarded key unread
      by_cases hkey : f.key = key
      · exact (h.sets f hf hkey state.1).bind fun a ha => Reader.yields_pure fun _ => ha
      · by_cases hread : key ∈ state.2
        · exact (h.keeps f hf state.1 (hstate hread)).bind fun a ha => Reader.yields_pure fun _ => ha
        · -- the guarded field has not been read before and is not read here
          refine Reader.yields_bind fun a => Reader.yields_pure fun hmem => ?_
          rcases List.mem_cons.1 hmem with heq | hmem
          · exact absurd (hname.trans heq.symm) hkey
          · exact absurd hmem hread

/-- When no field is missing, the guarded one has been read. -/
theorem Guards.mem_of_missing?_eq_none (h : r.Guards key P) {read : List String}
    (hnone : r.missing? read = none) : key ∈ read := by
  obtain ⟨f, hf, hkey⟩ := h.has
  rw [missing?, Option.map_eq_none_iff, List.find?_eq_none] at hnone
  have hf' := hnone f hf
  rw [h.required f hf hkey, hkey] at hf'
  simpa using hf'

theorem Guards.yields_fromObject (h : r.Guards key P) : r.fromObject.Yields P := by
  -- no field has been read at the start, so there is nothing to show
  have hbody : (Reader.objectBody r.member (r.blank, [])).Yields
      fun state => key ∈ state.2 → P state.1 := by
    intro cs
    exact Reader.yields_members (fun state name hstate => h.yields_member hstate name) _ true
      (fun hmem => absurd hmem List.not_mem_nil) cs
  refine hbody.bind fun state hstate => ?_
  obtain ⟨a, read⟩ := state
  cases hmissing : r.missing? read with
  | some name =>
    simp only [hmissing]
    exact Reader.yields_mismatch _ P
  | none =>
    simp only [hmissing]
    exact Reader.yields_pure (hstate (h.mem_of_missing?_eq_none hmissing))

/-- The fields of an array make the property true if the guarded one is among those to come, or has
been read already. -/
theorem Guards.yields_fromElements (h : r.Guards key P) {fs : List (Field α)}
    (hfs : ∀ f ∈ fs, f ∈ r.fields) (i : Nat) {a : α}
    (ha : (∃ f ∈ fs, f.key = key) ∨ P a) : (r.fromElements fs i a).Yields P := by
  induction fs generalizing i a with
  | nil =>
    rw [fromElements]
    rcases ha with ⟨f, hf, -⟩ | ha
    · cases hf
    · exact Reader.yields_bind fun _ => Reader.yields_pure ha
  | cons f fs ih =>
    have hf : f ∈ r.fields := hfs f List.mem_cons_self
    have hrest : ∀ g ∈ fs, g ∈ r.fields := fun g hg => hfs g (List.mem_cons_of_mem f hg)
    rw [fromElements]
    refine Reader.yields_bind fun more => ?_
    cases more with
    | true =>
      by_cases hkey : f.key = key
      · exact (h.sets f hf hkey a).bind fun b hb => ih hrest (i + 1) (.inr hb)
      · rcases ha with ⟨g, hg, hgkey⟩ | ha
        · -- the guarded field is not this one, so it comes later
          have hmem : g ∈ fs := by
            rcases List.mem_cons.1 hg with rfl | hmem
            · exact absurd hgkey hkey
            · exact hmem
          exact Reader.yields_bind fun b => ih hrest (i + 1) (.inl ⟨g, hmem, hgkey⟩)
        · exact (h.keeps f hf a ha).bind fun b hb => ih hrest (i + 1) (.inr hb)
    | false =>
      simp only [Bool.false_eq_true, if_false]
      cases hidx : (f :: fs).findIdx? (·.required) with
      | some j => exact Reader.yields_mismatch _ P
      | none =>
        -- no required field is to come, so the guarded one has been read
        have hread : P a := by
          refine ha.resolve_left ?_
          rintro ⟨g, hg, hgkey⟩
          have hreq := h.required g (hfs g hg) hgkey
          rw [List.findIdx?_eq_none_iff] at hidx
          rw [hidx g hg] at hreq
          cases hreq
        exact Reader.yields_bind fun _ => Reader.yields_pure hread

/-- **A record that is read** has the property its guarded field brings with it. -/
theorem Guards.yields_read (h : r.Guards key P) : r.read.Yields P := by
  rw [read]
  refine Reader.yields_bind fun c => ?_
  split
  · exact Reader.yields_fail _ P
  · exact Reader.yields_bind fun _ => h.yields_fromElements (fun _ hf => hf) 0 (.inl h.has)
  · exact Reader.yields_bind fun _ => h.yields_fromObject
  · exact Reader.yields_wrongType _ _ P

end Record

/-- A text that is read as a whole holds what its reader reads. -/
theorem Reader.Yields.decode {r : Reader α} {P : α → Prop} (h : r.Yields P) {s : String} {a : α}
    (ha : Json.decode r s = .ok a) : P a := by
  rw [Json.decode, decodeChars] at ha
  cases hs : r s.toList with
  | error f =>
    rw [hs] at ha
    cases ha
  | ok v =>
    obtain ⟨b, rest⟩ := v
    rw [hs] at ha
    simp only at ha
    split at ha
    · cases ha
      exact h s.toList a rest hs
    · cases ha

end BlockLedger.Json
