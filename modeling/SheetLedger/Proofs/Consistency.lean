import SheetLedger.Proofs.Cascade.LastVisit

/-!
# Consistency

A snapshot is *consistent* if every computed text is what its formula gives. After an edit and its
cascade this can fail at the slots that the edited one reaches, and nowhere else, because each of
them was computed from a snapshot in which only the cells on one chain had been renewed, the last of
the longest ones (`Snapshot.Recomputed`). So the result is consistent exactly if these cells alone
give the value that all cells give, and it is if no cell reads two slots that the change reaches
separately (`Recomputed.restored`).
-/

namespace SheetLedger.Snapshot

/-- Every cell holds the value of its formula against the other cells. -/
def Consistent (snapshot : Snapshot) (marker : String) : Prop :=
  ∀ cell ∈ snapshot,
    cell.computed = (cell.formula.compute (snapshot.without cell.slot) marker).value

instance (snapshot : Snapshot) (marker : String) : Decidable (snapshot.Consistent marker) :=
  inferInstanceAs (Decidable (∀ cell ∈ snapshot,
    cell.computed = (cell.formula.compute (snapshot.without cell.slot) marker).value))

/-- Of any two reached slots that a reached cell reads, one reaches the other. -/
def Unforked (snapshot : Snapshot) (first : Slot) : Prop :=
  ∀ cell ∈ snapshot, snapshot.Reaches first cell.slot →
    ∀ x y, cell.formula.dependsOn x = true → cell.formula.dependsOn y = true →
      snapshot.Reaches first x → snapshot.Reaches first y →
        x = y ∨ snapshot.Reaches x y ∨ snapshot.Reaches y x

/-- What a cascade leaves where no chain is cut off: the edited cell, the other cells as they were,
and at every slot that is reached a value computed along the last longest chain. -/
structure Recomputed (before after : Snapshot) (edited : Cell) : Prop where
  before_orderly : before.Orderly
  after_orderly : after.Orderly
  texts : (before.replace edited).SameTexts after
  own : after.find? edited.slot = some edited
  others : ∀ x, x ≠ edited.slot → ¬ after.Reaches edited.slot x → after.find? x = before.find? x
  reached : ∀ x, after.Reaches edited.slot x → ∃ cell path, after.find? x = some cell ∧
    after.LastLongest (before.replace edited) edited.slot path x ∧
    ((before.replace edited).renewedAlong after path.dropLast).Orderly ∧
    cell.formula.evaluate ((before.replace edited).renewedAlong after path.dropLast) =
      .ok cell.computed

/-- The exact extent to which a cascade restores consistency. Every slot that is reached has one
last longest chain, and its value is the one that its formula gives if the cells on that chain alone
are renewed. The snapshot is consistent exactly if these are the values that all current cells give,
as they are where the slots that are reached do not fork. -/
structure Restored (before after : Snapshot) (edited : Cell) (marker : String) : Prop where
  chains : ∀ cell ∈ after, after.Reaches edited.slot cell.slot →
    ∃! path, after.LastLongest (before.replace edited) edited.slot path cell.slot
  computed : ∀ cell ∈ after, after.Reaches edited.slot cell.slot → ∀ path,
    after.LastLongest (before.replace edited) edited.slot path cell.slot →
      cell.formula.evaluate ((before.replace edited).renewedAlong after path.dropLast) =
        .ok cell.computed
  consistent_iff : after.Consistent marker ↔
    ∀ cell ∈ after, after.Reaches edited.slot cell.slot → ∀ path,
      after.LastLongest (before.replace edited) edited.slot path cell.slot →
        cell.formula.evaluate ((before.replace edited).renewedAlong after path.dropLast) =
          cell.formula.evaluate after
  consistent_of_unforked : after.Unforked edited.slot → after.Consistent marker

variable {before after snapshot : Snapshot} {edited cell : Cell} {marker : String}
  {first x y : Slot} {path : List Slot}

/-! ## Renewed snapshots -/

theorem find?_renewedAlong_of_none (h : after.find? x = none) :
    (snapshot.renewedAlong after path).find? x = snapshot.find? x := by
  refine find?_foldl_replace_of_forall_ne _ fun row hrow hslot => ?_
  rcases List.mem_filterMap.1 hrow with ⟨slot, -, hfind⟩
  rw [← slot_of_find? hfind, hslot, h] at hfind
  cases hfind

/-- A cell on the chain is renewed, and so is one that was already new. -/
theorem find?_renewedAlong_of_some (h : after.find? x = some cell)
    (hmem : x ∈ path ∨ snapshot.find? x = some cell) :
    (snapshot.renewedAlong after path).find? x = some cell := by
  induction path using List.reverseRecOn with
  | nil => exact hmem.resolve_left List.not_mem_nil
  | append_singleton path last ih =>
    by_cases hx : last = x
    · subst hx
      rw [renewedAlong_concat _ _ h, find?_replace, if_pos (slot_of_find? h)]
    · have hrest : x ∈ path ∨ snapshot.find? x = some cell := by
        simpa [Ne.symm hx] using hmem
      cases hlast : after.find? last with
      | none => simpa [renewedAlong, hlast] using ih hrest
      | some row =>
        have hne : row.slot ≠ x := fun heq => hx ((slot_of_find? hlast).symm.trans heq)
        rw [renewedAlong_concat _ _ hlast, find?_replace, if_neg hne]
        exact ih hrest

/-! ## Longest chains -/

/-- Without forks a longest chain passes through every reached slot that reaches its end. -/
theorem Longest.mem_dropLast (horderly : snapshot.Orderly) (hacyclic : snapshot.Acyclic)
    (hunforked : snapshot.Unforked first) {last : Slot} (h : snapshot.Longest first path last)
    (hx : snapshot.Reaches first x) (hlast : snapshot.Reaches x last) : x ∈ path.dropLast := by
  -- the last step is split off: without forks `x` lies on the path to the slot before the last
  induction path using List.reverseRecOn generalizing last with
  | nil =>
    obtain rfl := chain_nil_iff.1 h.chain
    exact absurd (hx.trans hlast) (hacyclic.not_reaches_self _)
  | append_singleton path end_ ih =>
    rcases chain_concat_iff.1 h.chain with ⟨rfl, -⟩
    rcases h.exists_before with ⟨middle, hmiddle, hfeeds⟩
    rcases hlast.exists_feeds with ⟨other, hother, hotherFeeds⟩
    have hreached : snapshot.Reaches first other := by
      rcases hother with rfl | hreach
      · exact hx
      · exact hx.trans hreach
    rw [List.dropLast_concat]
    -- no chain to `other` is longer than the one to `middle`
    have hshort : ∀ {more : List Slot}, snapshot.Chain first more other →
        more.length ≤ path.length := by
      intro more hmore
      have hle := h.longest _ (hmore.snoc hotherFeeds)
      simpa using hle
    have hne : path ≠ [] := by
      rintro rfl
      rcases hreached with ⟨more, hmoreNe, hmore⟩
      exact hmoreNe (List.length_eq_zero_iff.1 (Nat.le_zero.1 (hshort hmore)))
    have hmem : middle ∈ path := hmiddle.chain.getLast_eq hne ▸ List.getLast_mem hne
    have hthrough : snapshot.Reaches x middle → x ∈ path := fun hreach =>
      List.dropLast_subset path (ih hmiddle hreach)
    -- the cell at `last` reads both `other` and `middle`, so one of them reaches the other
    rcases hfeeds with ⟨-, reader, hreader, hslot, hdep⟩
    rcases hotherFeeds with ⟨-, reader', hreader', hslot', hdep'⟩
    obtain rfl := horderly.eq_of_slot_eq hreader hreader' (hslot.trans hslot'.symm)
    rcases hunforked reader hreader (hslot ▸ hx.trans hlast) other middle hdep' hdep hreached
      ⟨path, hne, hmiddle.chain⟩ with rfl | hreach | ⟨more, hmoreNe, hmore⟩
    · rcases hother with rfl | hreach
      · exact hmem
      · exact hthrough hreach
    · rcases hother with rfl | hreach'
      · exact hthrough hreach
      · exact hthrough (hreach'.trans hreach)
    · -- `middle` reaches `other`, which makes a longer chain to `last`
      have hle := hshort (hmiddle.chain.append hmore)
      have hpos := List.length_pos_iff.2 hmoreNe
      rw [List.length_append] at hle
      omega

/-! ## Where consistency can fail -/

theorem evaluate_without_congr {formula : Formula} (hbefore : before.Orderly)
    (hafter : after.Orderly)
    (h : ∀ y, y ≠ x → formula.dependsOn y = true → after.find? y = before.find? y) :
    formula.evaluate (after.without x) = formula.evaluate (before.without x) := by
  refine Formula.evaluate_eq_of_find?_eq (hafter.without x) (hbefore.without x) fun y hdep => ?_
  rw [find?_without, find?_without]
  by_cases hx : x = y
  · rw [if_pos hx, if_pos hx]
  · rw [if_neg hx, if_neg hx]
    exact h y (Ne.symm hx) hdep

namespace Recomputed

variable (h : Recomputed before after edited)

include h

theorem edited_mem : edited ∈ after := mem_of_find? h.own

/-- Slots that are not reached hold what they held once the edited cell was in place. -/
theorem find?_of_not_reached (hx : ¬ after.Reaches edited.slot x) :
    (before.replace edited).find? x = after.find? x := by
  rw [find?_replace]
  by_cases hslot : edited.slot = x
  · rw [if_pos hslot, ← hslot, h.own]
  · rw [if_neg hslot, h.others x (Ne.symm hslot) hx]

/-- A cell that is not reached reads no slot that has changed. -/
theorem evaluate_of_not_reached (hcell : cell ∈ after)
    (hnot : ¬ after.Reaches edited.slot cell.slot) :
    cell.formula.evaluate (after.without cell.slot) =
      cell.formula.evaluate (before.without cell.slot) := by
  refine evaluate_without_congr h.before_orderly h.after_orderly ?_
  intro y hy hdep
  have hfeeds : after.Feeds y cell.slot := ⟨Ne.symm hy, cell, hcell, rfl, hdep⟩
  refine h.others y ?_ ?_
  · rintro rfl
    exact hnot (.of_feeds hfeeds)
  · exact fun hreach => hnot (hreach.trans (.of_feeds hfeeds))

/-- A reached cell has the value along the last longest chain to it. -/
theorem computed_of_lastLongest (hcell : cell ∈ after)
    (hreach : after.Reaches edited.slot cell.slot)
    (hpath : after.LastLongest (before.replace edited) edited.slot path cell.slot) :
    cell.formula.evaluate ((before.replace edited).renewedAlong after path.dropLast) =
      .ok cell.computed := by
  rcases h.reached cell.slot hreach with ⟨found, other, hfind, hlongest, -, hvalue⟩
  obtain rfl := h.after_orderly.eq_of_slot_eq (mem_of_find? hfind) hcell (slot_of_find? hfind)
  obtain rfl := hlongest.eq hpath
  exact hvalue

variable (hacyclic : after.Acyclic)

include hacyclic

/-- The edited cell reads no slot that has changed: it would read itself in the end. -/
theorem evaluate_edited :
    edited.formula.evaluate (after.without edited.slot) =
      edited.formula.evaluate (before.without edited.slot) := by
  refine evaluate_without_congr h.before_orderly h.after_orderly ?_
  intro y hy hdep
  refine h.others y hy fun hreach => hacyclic edited.slot ?_
  exact .head ⟨edited, h.edited_mem, rfl, hdep⟩ hreach.transGen

/-- A cell that is reached has a value, and its own slot has no part in it. -/
theorem evaluate_of_reached (hcell : cell ∈ after)
    (hreach : after.Reaches edited.slot cell.slot) :
    cell.formula.evaluate (after.without cell.slot) = cell.formula.evaluate after ∧
      ∃ value, cell.formula.evaluate after = .ok value := by
  constructor
  · refine Formula.evaluate_eq_of_find?_eq (h.after_orderly.without _) h.after_orderly ?_
    intro y hdep
    have hne : cell.slot ≠ y := by
      rintro rfl
      exact hacyclic cell.slot (.single ⟨cell, hcell, rfl, hdep⟩)
    rw [find?_without, if_neg hne]
  · rcases hreach.exists_feeds with ⟨source, hsource, -, reader, hreader, hslot, hdep⟩
    obtain rfl := h.after_orderly.eq_of_slot_eq hreader hcell hslot
    refine Formula.exists_value_of_dependsOn hdep ?_
    rcases hsource with rfl | hreached
    · exact ⟨edited, h.edited_mem, rfl⟩
    · rcases h.reached source hreached with ⟨found, -, hfind, -⟩
      exact ⟨found, mem_of_find? hfind, slot_of_find? hfind⟩

/-- Consistency is a matter of the slots that are reached. -/
theorem consistent_iff (hconsistent : before.Consistent marker)
    (hown : edited.computed =
      (edited.formula.compute (before.without edited.slot) marker).value) :
    after.Consistent marker ↔ ∀ cell ∈ after, after.Reaches edited.slot cell.slot →
      cell.formula.evaluate after = .ok cell.computed := by
  constructor
  · intro hafter cell hcell hreach
    rcases h.evaluate_of_reached hacyclic hcell hreach with ⟨hwithout, value, hvalue⟩
    rw [hafter cell hcell, Formula.compute_of_evaluate (hwithout.trans hvalue), hvalue]
  · intro hall cell hcell
    by_cases hreach : after.Reaches edited.slot cell.slot
    · have hwithout := (h.evaluate_of_reached hacyclic hcell hreach).1
      rw [Formula.compute_of_evaluate (hwithout.trans (hall cell hcell hreach))]
    · by_cases hslot : cell.slot = edited.slot
      · obtain rfl := h.after_orderly.eq_of_slot_eq hcell h.edited_mem hslot
        rw [Formula.compute_eq_of_evaluate_eq (h.evaluate_edited hacyclic)]
        exact hown
      · have hold : cell ∈ before := by
          have hfind := h.after_orderly.find?_eq_some_iff.2 ⟨hcell, rfl⟩
          rw [h.others cell.slot hslot hreach] at hfind
          exact mem_of_find? hfind
        rw [Formula.compute_eq_of_evaluate_eq (h.evaluate_of_not_reached hcell hreach)]
        exact hconsistent cell hold

/-- Without forks every reached cell was computed from the values that its slots hold in the end. -/
theorem evaluate_of_unforked (hunforked : after.Unforked edited.slot) (hcell : cell ∈ after)
    (hreach : after.Reaches edited.slot cell.slot) :
    cell.formula.evaluate after = .ok cell.computed := by
  rcases h.reached cell.slot hreach with ⟨found, path, hfind, hlongest, horderly, hvalue⟩
  obtain rfl := h.after_orderly.eq_of_slot_eq (mem_of_find? hfind) hcell (slot_of_find? hfind)
  rw [← hvalue]
  refine Formula.evaluate_eq_of_find?_eq h.after_orderly horderly fun y hdep => ?_
  have hne : found.slot ≠ y := by
    rintro rfl
    exact hacyclic found.slot (.single ⟨found, hcell, rfl, hdep⟩)
  cases hy : after.find? y with
  | none =>
    have htexts := h.texts y
    rw [hy] at htexts
    rw [find?_renewedAlong_of_none hy]
    exact (Option.map_eq_none_iff.1 htexts).symm
  | some row =>
    refine (find?_renewedAlong_of_some hy ?_).symm
    by_cases hreached : after.Reaches edited.slot y
    · exact Or.inl (hlongest.toLongest.mem_dropLast h.after_orderly hacyclic hunforked hreached
        (.of_feeds ⟨hne, found, hcell, rfl, hdep⟩))
    · exact Or.inr ((h.find?_of_not_reached hreached).trans hy)

theorem consistent_of_unforked (hconsistent : before.Consistent marker)
    (hown : edited.computed =
      (edited.formula.compute (before.without edited.slot) marker).value)
    (hunforked : after.Unforked edited.slot) : after.Consistent marker :=
  (h.consistent_iff hacyclic hconsistent hown).2 fun _ hcell hreach =>
    h.evaluate_of_unforked hacyclic hunforked hcell hreach

theorem restored (hconsistent : before.Consistent marker)
    (hown : edited.computed =
      (edited.formula.compute (before.without edited.slot) marker).value) :
    Restored before after edited marker where
  chains cell hcell hreach := by
    rcases h.reached cell.slot hreach with ⟨found, path, -, hlongest, -⟩
    exact ⟨path, hlongest, fun other hother => hlongest.eq hother⟩
  computed cell hcell hreach path hpath := h.computed_of_lastLongest hcell hreach hpath
  consistent_iff := by
    rw [h.consistent_iff hacyclic hconsistent hown]
    refine forall_congr' fun cell => forall_congr' fun hcell => forall_congr' fun hreach => ?_
    constructor
    · intro hvalue path hpath
      rw [h.computed_of_lastLongest hcell hreach hpath, hvalue]
    · intro hall
      rcases h.reached cell.slot hreach with ⟨found, path, -, hlongest, -⟩
      rw [← hall path hlongest, h.computed_of_lastLongest hcell hreach hlongest]
  consistent_of_unforked := h.consistent_of_unforked hacyclic hconsistent hown

end Recomputed

end SheetLedger.Snapshot
