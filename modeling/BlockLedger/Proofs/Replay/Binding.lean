import BlockLedger.Proofs.Replay.Hashed
import BlockLedger.Proofs.Tree.Binding

/-!
# What a replay binds

The outline of a proof is all of it but the hashes that it carries: widths, positions, and what kind
of value stands where. Whether a proof can be replayed depends on its outline and on the identifiers
at hand alone (`InclusionProof.WellFormed.of_outline`), and so all that changes from one replay to
another of the same outline are hashes and payloads.

Two such replays with one root are walked through together from the top down. The invariant of the
walk (`InclusionProof.WellFormed.label_eq`) is that both give a place the same label. It is kept
because the value of a place is used by a derived place above it, whose digest is made of the labels
of the two places below; the same digest is made of the same labels, unless two different byte
strings have been hashed to it. At its end the walk has come to every supplied hash and to every
payload, so none of them can be changed without changing the root (`InclusionProof.verify_binds`).
-/

namespace BlockLedger

/-- Lists with the same values of `f` are the same if `f` tells apart what stands at one index. -/
theorem eq_of_map_eq_map {α β : Type} {f : α → β} {xs ys : List α} (h : ys.map f = xs.map f)
    (hinj : ∀ (i : Nat) (x y : α), xs[i]? = some x → ys[i]? = some y → f y = f x → y = x) :
    ys = xs := by
  refine List.ext_getElem? fun i => ?_
  have hi : (ys[i]?).map f = (xs[i]?).map f := by
    rw [← List.getElem?_map, ← List.getElem?_map, h]
  cases hy : ys[i]? with
  | none =>
    rw [hy, Option.map_none, eq_comm, Option.map_eq_none_iff] at hi
    rw [hi]
  | some y =>
    rw [hy, Option.map_some, eq_comm, Option.map_eq_some_iff] at hi
    obtain ⟨x, hx, heq⟩ := hi
    rw [hx, hinj i x y hx hy heq.symm]

/-! ### Outlines -/

/-- Where the value at one place comes from, whatever hash may be given with it. -/
inductive SlotOutline where
  | leaf (id : String)
  | derived
  | supplied
  deriving DecidableEq

/-- A slot without the hash that it carries. -/
def Slot.outline : Slot → SlotOutline
  | .leaf id => .leaf id
  | .derived => .derived
  | .supplied _ => .supplied

/-- The position of an entry and the outline of its slot. -/
def Entry.outline (e : Entry) : Nat × SlotOutline := (e.position, e.slot.outline)

/-- The width of a row and the outlines of its entries. -/
def Level.outline (l : Level) : Nat × List (Nat × SlotOutline) :=
  (l.width, l.entries.map Entry.outline)

/-- **The outline of a proof**: all but the hashes that it carries. -/
def InclusionProof.outline (p : InclusionProof) : List (Nat × List (Nat × SlotOutline)) :=
  p.levels.map Level.outline

namespace Slot

variable {s s' : Slot}

theorem outline_eq_derived_iff : s.outline = .derived ↔ s = .derived := by
  cases s <;> simp [outline]

theorem leafId?_of_outline (h : s.outline = s'.outline) : s.leafId? = s'.leafId? := by
  cases s <;> cases s' <;> simp_all [outline, leafId?]

theorem FitsLevel.of_outline {k : Nat} (hs : s.FitsLevel k) (h : s'.outline = s.outline) :
    s'.FitsLevel k := by
  cases s <;> cases s' <;> simp_all [outline, FitsLevel]

end Slot

namespace Level

variable {l l' below below' above above' : Level}

theorem width_of_outline (h : l.outline = l'.outline) : l.width = l'.width :=
  congrArg Prod.fst h

theorem entries_of_outline (h : l.outline = l'.outline) :
    l.entries.map Entry.outline = l'.entries.map Entry.outline :=
  congrArg Prod.snd h

/-- Each entry of a row has its like in every row with the same outline. -/
theorem exists_entry_of_outline (h : l.outline = l'.outline) {e : Entry} (he : e ∈ l.entries) :
    ∃ e' ∈ l'.entries, e'.position = e.position ∧ e'.slot.outline = e.slot.outline := by
  have hmem : e.outline ∈ l.entries.map Entry.outline := List.mem_map_of_mem he
  rw [entries_of_outline h] at hmem
  obtain ⟨e', he', heq⟩ := List.mem_map.1 hmem
  obtain ⟨hposition, hkind⟩ := Prod.mk.inj heq
  exact ⟨e', he', hposition, hkind⟩

theorem Has.of_outline {q : Nat} (hq : l.Has q) (h : l.outline = l'.outline) : l'.Has q := by
  obtain ⟨e, he, rfl⟩ := hq
  obtain ⟨e', he', hposition, -⟩ := exists_entry_of_outline h he
  exact ⟨e', he', hposition⟩

theorem derives_of_outline {q : Nat} (hq : l.derives q = true) (h : l.outline = l'.outline) :
    l'.derives q = true := by
  obtain ⟨e, he, rfl, hs⟩ := derives_iff.1 hq
  obtain ⟨e', he', hposition, hkind⟩ := exists_entry_of_outline h he
  refine derives_iff.2 ⟨e', he', hposition, ?_⟩
  rw [← Slot.outline_eq_derived_iff, hkind, hs]
  rfl

/-- The positions of a row stand in its outline, in order. -/
theorem positions_of_outline (h : l.outline = l'.outline) :
    l.entries.map (·.position) = l'.entries.map (·.position) := by
  have heq := congrArg (List.map Prod.fst) (entries_of_outline h)
  rwa [List.map_map, List.map_map] at heq

theorem Ordered.of_outline (hl : l.Ordered) (h : l'.outline = l.outline) : l'.Ordered := by
  obtain ⟨hascend, hwithin⟩ := hl
  refine ⟨?_, fun e he => ?_⟩
  · rw [← List.pairwise_map] at hascend ⊢
    rwa [positions_of_outline h]
  · obtain ⟨e', he', hposition, -⟩ := exists_entry_of_outline h he
    rw [width_of_outline h, ← hposition]
    exact hwithin e' he'

theorem leafIds_of_outline (h : l.outline = l'.outline) : l.leafIds = l'.leafIds := by
  have hpairs := entries_of_outline h
  rw [leafIds, leafIds]
  -- entry by entry, along both rows
  generalize l.entries = es at hpairs ⊢
  generalize l'.entries = es' at hpairs ⊢
  induction es generalizing es' with
  | nil =>
    rw [List.map_nil, eq_comm, List.map_eq_nil_iff] at hpairs
    rw [hpairs]
  | cons e es ih =>
    cases es' with
    | nil => cases hpairs
    | cons e' es' =>
      obtain ⟨hfirst, hrest⟩ := List.cons.inj hpairs
      have hid : e.slot.leafId? = e'.slot.leafId? :=
        Slot.leafId?_of_outline (congrArg Prod.snd hfirst)
      rw [List.filterMap_cons, List.filterMap_cons, hid, ih es' hrest]

theorem Used.of_outline (h : below.Used above) (hbelow : below'.outline = below.outline)
    (habove : above'.outline = above.outline) : below'.Used above' := by
  intro e he
  obtain ⟨e', he', hposition, -⟩ := exists_entry_of_outline hbelow he
  rw [← hposition]
  exact derives_of_outline (h e' he') habove.symm

theorem Fed.of_outline (h : below.Fed above) (hbelow : below'.outline = below.outline)
    (habove : above'.outline = above.outline) : below'.Fed above' := by
  intro e he hs
  obtain ⟨e', he', hposition, hkind⟩ := exists_entry_of_outline habove he
  rw [hs] at hkind
  obtain ⟨hleft, hright⟩ := h e' he' (Slot.outline_eq_derived_iff.1 hkind)
  rw [hposition] at hleft hright
  rw [width_of_outline hbelow]
  exact ⟨hleft.of_outline hbelow.symm, fun hlt => (hright hlt).of_outline hbelow.symm⟩

end Level

namespace InclusionProof

variable {p p' : InclusionProof} {held held' : List HeldLeaf}

theorem length_of_outline (h : p'.outline = p.outline) : p'.levels.length = p.levels.length := by
  have hlen := congrArg List.length h
  rwa [outline, outline, List.length_map, List.length_map] at hlen

/-- Each row of a proof has its like in every proof with the same outline. -/
theorem exists_level_of_outline (h : p'.outline = p.outline) {k : Nat} {l : Level}
    (hl : p'.levels[k]? = some l) : ∃ l', p.levels[k]? = some l' ∧ l.outline = l'.outline := by
  have hk := congrArg (·[k]?) h
  simp only [outline, List.getElem?_map, hl, Option.map_some] at hk
  obtain ⟨l', hl', heq⟩ := Option.map_eq_some_iff.1 hk.symm
  exact ⟨l', hl', heq.symm⟩

theorem exists_head_of_outline (h : p'.outline = p.outline) {l : Level}
    (hl : p'.levels.head? = some l) :
    ∃ l', p.levels.head? = some l' ∧ l.outline = l'.outline := by
  rw [List.head?_eq_getElem?] at hl ⊢
  exact exists_level_of_outline h hl

theorem exists_last_of_outline (h : p'.outline = p.outline) {l : Level}
    (hl : p'.levels.getLast? = some l) :
    ∃ l', p.levels.getLast? = some l' ∧ l.outline = l'.outline := by
  rw [List.getLast?_eq_getElem?] at hl ⊢
  rw [length_of_outline h] at hl
  exact exists_level_of_outline h hl

/-- **Whether a proof can be replayed** depends on its outline and the identifiers at hand alone. -/
theorem WellFormed.of_outline (h : p.WellFormed held) (houtline : p'.outline = p.outline)
    (hids : held'.map (·.1) = held.map (·.1)) : p'.WellFormed held' where
  -- there are as many leaves and rows
  held_ne_nil := by
    rintro rfl
    exact h.held_ne_nil (List.map_eq_nil_iff.1 hids.symm)
  levels_ne_nil := by
    have hlength := length_of_outline houtline
    intro hnil
    rw [hnil, List.length_nil, eq_comm, List.length_eq_zero_iff] at hlength
    exact h.levels_ne_nil hlength
  -- the widths stand in the outline
  width_pos l hl := by
    obtain ⟨l', hl', hlike⟩ := exists_head_of_outline houtline hl
    rw [Level.width_of_outline hlike]
    exact h.width_pos l' hl'
  width_halves k below above hbelow habove := by
    obtain ⟨below', hbelow', hlike⟩ := exists_level_of_outline houtline hbelow
    obtain ⟨above', habove', hlike'⟩ := exists_level_of_outline houtline habove
    rw [Level.width_of_outline hlike, Level.width_of_outline hlike']
    exact h.width_halves k below' above' hbelow' habove'
  width_last l hl := by
    obtain ⟨l', hl', hlike⟩ := exists_last_of_outline houtline hl
    rw [Level.width_of_outline hlike]
    exact h.width_last l' hl'
  -- so do the positions in each row, what kind of value stands there, and the identifiers of leaves
  ordered l hl := by
    obtain ⟨k, hk⟩ := List.mem_iff_getElem?.1 hl
    obtain ⟨l', hl', hlike⟩ := exists_level_of_outline houtline hk
    exact (h.ordered_at hl').of_outline hlike
  fitting k l hl e he := by
    obtain ⟨l', hl', hlike⟩ := exists_level_of_outline houtline hl
    obtain ⟨e', he', -, hkind⟩ := Level.exists_entry_of_outline hlike he
    exact (h.fitting k l' hl' e' he').of_outline hkind.symm
  leaves_match l hl id := by
    obtain ⟨l', hl', hlike⟩ := exists_head_of_outline houtline hl
    rw [Level.countLeaf, Level.leafIds_of_outline hlike, hids]
    exact h.leaves_match l' hl' id
  -- how two rows fit together is a matter of positions and kinds as well
  used k below above hbelow habove := by
    obtain ⟨below', hbelow', hlike⟩ := exists_level_of_outline houtline hbelow
    obtain ⟨above', habove', hlike'⟩ := exists_level_of_outline houtline habove
    exact (h.used k below' above' hbelow' habove').of_outline hlike hlike'
  fed k below above hbelow habove := by
    obtain ⟨below', hbelow', hlike⟩ := exists_level_of_outline houtline hbelow
    obtain ⟨above', habove', hlike'⟩ := exists_level_of_outline houtline habove
    exact (h.fed k below' above' hbelow' habove').of_outline hlike hlike'

/-! ### The walk -/

/-- **The walk from the top down.** Two replays of one outline that give the top the same label give
the same label to every place. -/
theorem WellFormed.label_eq (hwf : p.WellFormed held) (hwf' : p'.WellFormed held')
    (houtline : p'.outline = p.outline) (hno : ¬ Clash (p.hashed held ++ p'.hashed held'))
    (htop : p'.label held' (p.levels.length - 1) 0 = p.label held (p.levels.length - 1) 0)
    {d k : Nat} (hd : d + (k + 1) = p.levels.length) {row : Level} (hrow : p.levels[k]? = some row)
    {q : Nat} (hq : row.Has q) : p'.label held' k q = p.label held k q := by
  induction d generalizing k row q with
  | zero =>
    obtain rfl : k = p.levels.length - 1 := by omega
    -- the last row has one place
    obtain ⟨top, e, hlast, hes, hzero, -⟩ := hwf.top
    rw [hrow] at hlast
    cases hlast
    obtain ⟨e', he', rfl⟩ := hq
    rw [hes, List.mem_singleton] at he'
    rw [he', hzero]
    exact htop
  | succ d ih =>
    obtain ⟨e₀, he₀, rfl⟩ := hq
    -- the place above uses this one, so it is derived and the walk has passed it
    obtain ⟨above, habove⟩ : ∃ above, p.levels[k + 1]? = some above :=
      ⟨_, List.getElem?_eq_getElem (by omega)⟩
    obtain ⟨e, he, hpos, hs⟩ := Level.derives_iff.1 (hwf.used k row above hrow habove e₀ he₀)
    have hlabel := ih (k := k + 1) (by omega) habove ⟨e, he, rfl⟩
    -- the other replay has the like of the two rows, and derives the place from the same two places
    obtain ⟨row', hrow', hlike⟩ := exists_level_of_outline houtline.symm hrow
    obtain ⟨above', habove', hlike'⟩ := exists_level_of_outline houtline.symm habove
    obtain ⟨e', he', hpos', hkind⟩ := Level.exists_entry_of_outline hlike' he
    rw [hs] at hkind
    obtain ⟨left, right, hleft, hright, hpair, hin⟩ := hwf.exists_pair hrow habove he hs
    obtain ⟨left', right', hleft', hright', hpair', hin'⟩ :=
      hwf'.exists_pair hrow' habove' he' (Slot.outline_eq_derived_iff.1 hkind)
    rw [hpos', ← Level.width_of_outline hlike] at hright'
    rw [hpos'] at hleft' hpair'
    rw [hpair, hpair', Option.some.injEq] at hlabel
    have hinput := eq_of_hash_eq hno (List.mem_append_right _ hin') (List.mem_append_left _ hin)
      hlabel
    obtain ⟨rfl, rfl⟩ := Digest.pairInput_inj hinput
    rw [hpos] at hleft hright hleft' hright'
    rcases eq_left_or_eq_right e₀.position with hq | hq
    · rw [hq, hleft, hleft']
    · -- a place on the right lies within the row, so its label is the second of the pair
      have hwidth : 2 * (e₀.position / 2) + 1 < row.width := by
        rw [← hq]
        exact (hwf.ordered_at hrow).2 e₀ he₀
      rw [rightBelow_of_lt hwidth] at hright hright'
      rw [hq, hright, hright']

/-- The walk ends everywhere: two replays of one outline with one label at the top have all labels
in common. -/
theorem WellFormed.label_eq_of_top (hwf : p.WellFormed held) (hwf' : p'.WellFormed held')
    (houtline : p'.outline = p.outline) (hno : ¬ Clash (p.hashed held ++ p'.hashed held'))
    (htop : p'.label held' (p.levels.length - 1) 0 = p.label held (p.levels.length - 1) 0)
    {k : Nat} {row : Level} (hrow : p.levels[k]? = some row) {q : Nat} (hq : row.Has q) :
    p'.label held' k q = p.label held k q := by
  have hk : k < p.levels.length := (List.getElem?_eq_some_iff.1 hrow).1
  exact hwf.label_eq hwf' houtline hno htop (d := p.levels.length - (k + 1)) (by omega) hrow hq

/-! ### Hashes and payloads -/

/-- Entries of one outline are the same if the hashes they carry are. -/
theorem entry_eq_of_outline {e e' : Entry} (h : e'.outline = e.outline)
    (hhash : ∀ d d', e.slot = .supplied d → e'.slot = .supplied d' → d' = d) : e' = e := by
  obtain ⟨q, s⟩ := e
  obtain ⟨q', s'⟩ := e'
  obtain ⟨rfl, hkind⟩ := Prod.mk.inj h
  cases s with
  | leaf id => cases s' <;> simp_all [Slot.outline]
  | derived => cases s' <;> simp_all [Slot.outline]
  | supplied d =>
    cases s' with
    | leaf id => cases hkind
    | derived => cases hkind
    | supplied d' => rw [hhash d d' rfl rfl]

/-- **Proofs of one outline with the same labels** carry the same hashes. -/
theorem eq_of_label_eq (hwf : p.WellFormed held) (hwf' : p'.WellFormed held')
    (houtline : p'.outline = p.outline)
    (hlabel : ∀ k row, p.levels[k]? = some row → ∀ q, row.Has q →
      p'.label held' k q = p.label held k q) : p' = p := by
  have hrows : ∀ (k : Nat) (l l' : Level), p.levels[k]? = some l → p'.levels[k]? = some l' →
      l'.outline = l.outline → l' = l := by
    intro k l l' hl hl' hlike
    have hentries : ∀ (i : Nat) (e e' : Entry), l.entries[i]? = some e → l'.entries[i]? = some e' →
        e'.outline = e.outline → e' = e := by
      intro i e e' he he' heq
      have hmem := List.mem_of_getElem? he
      -- the label of a supplied place is the hash that is supplied
      refine entry_eq_of_outline heq fun d d' hs hs' => ?_
      have hd := (labels_label hwf).supplied k l hl e hmem d hs
      have hd' := (labels_label hwf').supplied k l' hl' e' (List.mem_of_getElem? he') d' hs'
      have hposition : e'.position = e.position := congrArg Prod.fst heq
      rw [hposition, hlabel k l hl _ ⟨e, hmem, rfl⟩, hd] at hd'
      exact (Option.some.inj hd').symm
    have hes : l'.entries = l.entries :=
      eq_of_map_eq_map (Level.entries_of_outline hlike) hentries
    have hwidth : l'.width = l.width := Level.width_of_outline hlike
    cases l
    cases l'
    simp_all
  have hlevels : p'.levels = p.levels := eq_of_map_eq_map houtline hrows
  cases p
  cases p'
  exact congrArg _ hlevels

/-- A proof that gives its places the same labels in two replays has been replayed with the same
payloads, unless there is a clash. -/
theorem payloadsOf_eq_of_label_eq (hwf : p.WellFormed held) (hwf' : p.WellFormed held')
    (hno : ¬ Clash (p.hashed held ++ p.hashed held'))
    (hlabel : ∀ k row, p.levels[k]? = some row → ∀ q, row.Has q →
      p.label held' k q = p.label held k q) (id : String) :
    payloadsOf held' id = payloadsOf held id := by
  obtain ⟨row, ls, hlevels⟩ := hwf.shaped.exists_levels
  have hrow : p.levels[0]? = some row := by rw [hlevels, List.getElem?_cons_zero]
  have hhead : p.levels.head? = some row := by rw [List.head?_eq_getElem?, hrow]
  -- in both replays there are as many payloads for an identifier as places that name it
  have hlen : (payloadsOf held id).length = (row.placesOf id).length := by
    rw [length_payloadsOf, row.length_placesOf, hwf.leaves_match row hhead]
  have hlen' : (payloadsOf held' id).length = (row.placesOf id).length := by
    rw [length_payloadsOf, row.length_placesOf, hwf'.leaves_match row hhead]
  refine List.ext_getElem? fun j => ?_
  by_cases hj : j < (row.placesOf id).length
  · have hplace := List.getElem?_eq_getElem hj
    have hb := List.getElem?_eq_getElem (hlen ▸ hj)
    have hb' := List.getElem?_eq_getElem (hlen' ▸ hj)
    have hhas : row.Has (row.placesOf id)[j] := by
      obtain ⟨e, he, -, hpos⟩ := mem_placesIn.1 (List.getElem_mem hj)
      exact ⟨e, he, hpos⟩
    have hd := (labels_label hwf).leaf row hrow id j _ _ hplace hb
    have hd' := (labels_label hwf').leaf row hrow id j _ _ hplace hb'
    rw [hlabel 0 row hrow _ hhas, hd, Option.some.injEq] at hd'
    have hin := payloadInput_mem_hashed (p := p) (mem_payloadsOf.1 (List.mem_of_getElem? hb))
    have hin' := payloadInput_mem_hashed (p := p) (mem_payloadsOf.1 (List.mem_of_getElem? hb'))
    have hinput := eq_of_hash_eq hno (List.mem_append_left _ hin) (List.mem_append_right _ hin') hd'
    have hpayload : (payloadsOf held id)[j] = (payloadsOf held' id)[j] :=
      Digest.payloadInput_inj hinput
    rw [hb, hb', hpayload]
  · rw [List.getElem?_eq_none (by omega), List.getElem?_eq_none (by omega)]

/-- Leaves with the same identifiers in the same order are the same if each identifier has the same
payloads. -/
theorem eq_of_payloadsOf_eq (hids : held'.map (·.1) = held.map (·.1))
    (h : ∀ id, payloadsOf held' id = payloadsOf held id) : held' = held := by
  induction held generalizing held' with
  | nil => exact List.map_eq_nil_iff.1 hids
  | cons l ls ih =>
    cases held' with
    | nil => cases hids
    | cons l' ls' =>
      obtain ⟨hid, hrest⟩ := List.cons.inj hids
      -- the payloads for an identifier differ by the leaf in front, if it is one of them
      have htail : l'.2 = l.2 ∧ ∀ id, payloadsOf ls' id = payloadsOf ls id := by
        have hfirst := h l.1
        rw [payloadsOf_cons_of_eq hid, payloadsOf_cons_of_eq rfl] at hfirst
        obtain ⟨hpayload, hsame⟩ := List.cons.inj hfirst
        refine ⟨hpayload, fun id => ?_⟩
        by_cases heq : l.1 = id
        · rw [← heq]
          exact hsame
        · have hother := h id
          have hne : l'.1 ≠ id := fun h => heq (hid.symm.trans h)
          rwa [payloadsOf_cons_of_ne hne, payloadsOf_cons_of_ne heq] at hother
      rw [ih hrest htail.2, Prod.ext hid htail.1]

/-! ### Accepted proofs -/

/-- **An accepted proof binds all that it is replayed with.** Take a proof of the same outline as
one that has been accepted. If it is accepted against the same root, it carries the same hashes,
which makes it the same proof, and the `j`-th leaf at hand with an identifier has the same payload
in both replays. So once a hash or a payload has been changed, the answer is `false`. All this holds
unless two different byte strings hashed in the two replays have one digest. -/
theorem verify_binds {root : Digest} (houtline : p'.outline = p.outline)
    (h : p.verify root held = .ok true) :
    Clash (p.hashed held ++ p'.hashed held') ∨
      ((p'.verify root held' = .ok true →
          p' = p ∧ ∀ (id : String) (j : Nat),
            (payloadsOf held' id)[j]? = (payloadsOf held id)[j]?) ∧
        (held'.map (·.1) = held.map (·.1) → (p', held') ≠ (p, held) →
          p'.verify root held' = .ok false)) := by
  by_cases hclash : Clash (p.hashed held ++ p'.hashed held')
  · exact .inl hclash
  refine .inr ?_
  obtain ⟨hwf, d, htop, hroot⟩ := verify_eq_ok_iff.1 h
  obtain rfl : d = root := of_decide_eq_true hroot.symm
  have hbinds : p'.verify d held' = .ok true →
      p' = p ∧ ∀ id, payloadsOf held' id = payloadsOf held id := by
    intro h'
    obtain ⟨hwf', d', htop', hroot'⟩ := verify_eq_ok_iff.1 h'
    obtain rfl : d' = d := of_decide_eq_true hroot'.symm
    rw [length_of_outline houtline, ← htop] at htop'
    have hlabel : ∀ k row, p.levels[k]? = some row → ∀ q, row.Has q →
        p'.label held' k q = p.label held k q :=
      fun k row hrow q hq => hwf.label_eq_of_top hwf' houtline hclash htop' hrow hq
    obtain rfl : p' = p := eq_of_label_eq hwf hwf' houtline hlabel
    exact ⟨rfl, payloadsOf_eq_of_label_eq hwf hwf' hclash hlabel⟩
  refine ⟨fun h' => ?_, fun hids hne => ?_⟩
  · obtain ⟨hproof, hpayloads⟩ := hbinds h'
    exact ⟨hproof, fun id j => by rw [hpayloads]⟩
  · -- the changed proof can be replayed as well, and it is not accepted
    obtain ⟨b, hb⟩ := (verify_accepts_iff d held' p').1.2 (hwf.of_outline houtline hids)
    cases b with
    | false => exact hb
    | true =>
      obtain ⟨hproof, hpayloads⟩ := hbinds hb
      exact absurd (Prod.ext hproof (eq_of_payloadsOf_eq hids hpayloads)) hne

/-- The proof for the first of two leaves, with another payload and another hash beside it. -/
theorem verify_binds_changed :
    let p : InclusionProof := ⟨[⟨2, [⟨0, .leaf "a"⟩, ⟨1, .supplied (.ofPayload [2])⟩]⟩,
      ⟨1, [⟨0, .derived⟩]⟩]⟩
    let p' : InclusionProof := ⟨[⟨2, [⟨0, .leaf "a"⟩, ⟨1, .supplied (.ofPayload [4])⟩]⟩,
      ⟨1, [⟨0, .derived⟩]⟩]⟩
    let held : List HeldLeaf := [("a", [1])]
    let held' : List HeldLeaf := [("a", [3])]
    let root := Digest.ofPair (.ofPayload [1]) (.ofPayload [2])
    p'.outline = p.outline ∧ p.verify root held = .ok true ∧
      (Clash (p.hashed held ++ p'.hashed held') ∨
        ((p'.verify root held' = .ok true →
            p' = p ∧ ∀ (id : String) (j : Nat),
              (payloadsOf held' id)[j]? = (payloadsOf held id)[j]?) ∧
          (held'.map (·.1) = held.map (·.1) → (p', held') ≠ (p, held) →
            p'.verify root held' = .ok false))) := by
  intro p p' held held' root
  have houtline : p'.outline = p.outline := by
    simp only [p, p', outline, Level.outline, Entry.outline, Slot.outline, List.map_cons,
      List.map_nil]
  have hreplay : p.replay held = .ok root := rfl
  have hverify : p.verify root held = .ok true := by
    rw [verify, hreplay]
    exact congrArg Except.ok (decide_eq_true rfl)
  exact ⟨houtline, hverify, verify_binds houtline hverify⟩

end InclusionProof

end BlockLedger
