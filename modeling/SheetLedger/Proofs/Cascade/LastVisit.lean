import SheetLedger.Proofs.Cascade.Order

/-!
# The last visit to a slot

A cascade may write a slot many times. What stays current is the row of the *last* visit, and this
row was computed from a snapshot in which the slots of one chain only have been renewed. Where no
slot reaches itself and no chain is cut off by the depth, that is the last of the longest chains to
the slot (`Cascade.exists_last_longest`), and each row that is renewed on it is the last one at its
own slot: had the slot before been visited later once more, that visit would have been followed by
one more to this slot.
-/

namespace SheetLedger

/-- A snapshot with the cells on a chain renewed: those of a newer snapshot in the place of its own,
in the order of the chain. -/
def Snapshot.renewedAlong (snapshot newer : Snapshot) (path : List Slot) : Snapshot :=
  (path.filterMap newer.find?).foldl Snapshot.replace snapshot

theorem Snapshot.renewedAlong_concat (snapshot : Snapshot) {newer : Snapshot} (path : List Slot)
    {slot : Slot} {cell : Cell} (h : newer.find? slot = some cell) :
    snapshot.renewedAlong newer (path ++ [slot]) =
      (snapshot.renewedAlong newer path).replace cell := by
  simp [renewedAlong, h]

namespace Cascade

variable {base : Snapshot} {sheet : String} {version lastId depth k l : Nat} {changed slot : Slot}
  {frontier : Frontier} {visit other : Visit}

/-! ## The last visit -/

/-- No visit to the same slot is later. -/
structure Last (visits : List Visit) (visit : Visit) : Prop where
  mem : visit ∈ visits
  newest : ∀ other ∈ visits, other.row.slot = visit.row.slot → other.row.id ≤ visit.row.id

/-- Of the visits to a slot one is the last. -/
theorem exists_last {visits : List Visit} (h : visit ∈ visits) :
    ∃ last, Last visits last ∧ last.row.slot = visit.row.slot := by
  induction visits generalizing visit with
  | nil => cases h
  | cons first rest ih =>
    by_cases hrest : ∃ other ∈ rest, other.row.slot = visit.row.slot
    · rcases hrest with ⟨other, hother, hslot⟩
      rcases ih hother with ⟨last, hlast, hlastSlot⟩
      rw [hslot] at hlastSlot
      -- the last one of the rest stands, unless the first is at the slot and has a higher id
      by_cases hfirst : first.row.slot = visit.row.slot ∧ last.row.id < first.row.id
      · refine ⟨first, ⟨List.mem_cons_self, fun o ho hoSlot => ?_⟩, hfirst.1⟩
        rcases List.mem_cons.1 ho with rfl | hmem
        · exact Nat.le_refl _
        · have hle := hlast.newest o hmem (hoSlot.trans (hfirst.1.trans hlastSlot.symm))
          exact Nat.le_trans hle (Nat.le_of_lt hfirst.2)
      · refine ⟨last, ⟨List.mem_cons_of_mem _ hlast.mem, fun o ho hoSlot => ?_⟩, hlastSlot⟩
        rcases List.mem_cons.1 ho with rfl | hmem
        · exact Nat.le_of_not_lt fun hlt => hfirst ⟨hoSlot.trans hlastSlot, hlt⟩
        · exact hlast.newest o hmem hoSlot
    · have hvisit : visit = first :=
        (List.mem_cons.1 h).resolve_right fun hmem => hrest ⟨visit, hmem, rfl⟩
      subst hvisit
      refine ⟨visit, ⟨List.mem_cons_self, fun o ho hoSlot => ?_⟩, rfl⟩
      rcases List.mem_cons.1 ho with rfl | hmem
      · exact Nat.le_refl _
      · exact absurd ⟨o, hmem, hoSlot⟩ hrest

section

variable {snapshot newer : Snapshot} (horderly : snapshot.Orderly)
  (hready : (start depth lastId changed snapshot).Ready snapshot sheet)
  (hdepth : ∀ path x, snapshot.Chain changed path x → path.length ≤ depth)

include horderly hready hdepth

/-- Where the depth cuts off no chain, every visit of a level is one of the cascade. -/
theorem mem_visits_of_mem_level
    (h : visit ∈ level version (start depth lastId changed snapshot) k) :
    visit ∈ visits version (start depth lastId changed snapshot) depth := by
  rcases (exists_mem_level_iff horderly hready k).1 ⟨visit, h, rfl⟩ with ⟨path, hlength, hchain⟩
  have hle := hdepth path _ hchain
  exact mem_visits.2 ⟨k, by omega, h⟩

/-- The last visit to a slot follows from the last visit to the slot before. -/
theorem Last.exists_before
    (h : Last (visits version (start depth lastId changed snapshot) depth) visit)
    (hlevel : visit ∈ level version (start depth lastId changed snapshot) (k + 1)) :
    ∃ before ∈ level version (start depth lastId changed snapshot) k,
      visit.entry = before.follow ∧
        Last (visits version (start depth lastId changed snapshot) depth) before := by
  rcases exists_follow_of_mem_level hlevel with ⟨before, hbefore, hentry⟩
  refine ⟨before, hbefore, hentry,
    mem_visits_of_mem_level horderly hready hdepth hbefore, ?_⟩
  intro other hother hslot
  rcases mem_visits.1 hother with ⟨l, -, hotherLevel⟩
  -- suppose the slot of `before` was visited later than by `before`
  by_contra hlater
  rw [Nat.not_le] at hlater
  have hle : k ≤ l := by
    by_contra hlt
    exact Nat.lt_asymm hlater (id_lt_of_level_lt (Nat.lt_of_not_le hlt) hotherLevel hbefore)
  -- that visit is followed by one to the slot of `visit`
  have hfeeds : snapshot.Feeds other.row.slot visit.row.slot := by
    have hstep := feeds_of_mem_sweep horderly (hready.iterate version (k + 1)) hlevel
    rw [hentry] at hstep
    rw [hslot]
    exact hstep
  obtain ⟨next, hnext, hnextEntry, hnextSlot⟩ :=
    exists_follow_of_feeds horderly hready hotherLevel hfeeds
  have hnewest := h.newest next (mem_visits_of_mem_level horderly hready hdepth hnext) hnextSlot
  -- which is later than `visit`, the last one
  have hnextLater : visit.row.id < next.row.id := by
    rcases Nat.eq_or_lt_of_le hle with rfl | hlt
    · rw [level_succ] at hlevel hnext
      exact id_lt_of_follow (increasing_sweep _ _ _) hbefore hotherLevel hlater hlevel hnext
        hentry hnextEntry
    · exact id_lt_of_level_lt (Nat.succ_lt_succ hlt) hlevel hnext
  omega

variable (hcycle : ∀ x, ¬ snapshot.Reaches x x)

include hcycle

/-- The last visit to a slot is made from a snapshot renewed along its path. -/
theorem Last.snapshot_eq
    (h : Last (visits version (start depth lastId changed snapshot) depth) visit)
    (hlevel : visit ∈ level version (start depth lastId changed snapshot) k)
    (hnewer : ∀ v, Last (visits version (start depth lastId changed snapshot) depth) v →
      newer.find? v.row.slot = some v.row) :
    visit.entry.snapshot = snapshot.renewedAlong newer (visit.path lastId).dropLast := by
  induction k generalizing visit with
  | zero =>
    rw [path_of_level_zero hready hlevel, List.mem_singleton.1 (mem_sweep hlevel).1]
    rfl
  | succ k ih =>
    rcases h.exists_before horderly hready hdepth hlevel with ⟨before, hbefore, hentry, hlast⟩
    rcases chain_path horderly hready hcycle hbefore with ⟨hlength, hchain⟩
    have hpath := (path_of_follow horderly hready hcycle hlevel hentry hchain).2.2
    -- the row of `before` is the one that `newer` has at the end of the path
    have hne : before.path lastId ≠ [] := List.ne_nil_of_length_eq_add_one hlength
    have hend : before.path lastId = (before.path lastId).dropLast ++ [before.row.slot] := by
      rw [← hchain.getLast_eq hne, List.dropLast_append_getLast]
    rw [hpath, List.dropLast_concat, hend, Snapshot.renewedAlong_concat _ _ (hnewer before hlast),
      hentry, ← ih hlast hbefore]
    rfl

/-- The last visit to a slot that the change reaches is made along the last longest chain. -/
theorem exists_last_longest (version : Nat) {x : Slot} (h : snapshot.Reaches changed x)
    (hnewer : ∀ v, Last (visits version (start depth lastId changed snapshot) depth) v →
      newer.find? v.row.slot = some v.row) :
    ∃ visit path, Last (visits version (start depth lastId changed snapshot) depth) visit ∧
      visit.row.slot = x ∧ snapshot.LastLongest snapshot changed path x ∧
      visit.entry.snapshot = snapshot.renewedAlong newer path.dropLast := by
  rcases h with ⟨path, hne, hchain⟩
  obtain ⟨first, hfirst, hfirstSlot, -⟩ :=
    exists_path_eq horderly hready hcycle version hne hchain
  obtain ⟨visit, hlast, hslot⟩ :=
    exists_last (mem_visits_of_mem_level horderly hready hdepth hfirst)
  rcases mem_visits.1 hlast.mem with ⟨k, -, hlevel⟩
  rcases chain_path horderly hready hcycle hlevel with ⟨hlength, hpath⟩
  have hx : visit.row.slot = x := hslot.trans hfirstSlot
  rw [hx] at hpath
  -- every other chain is the path of a visit, and that one is not later
  have hvisits : ∀ other, other ≠ [] → snapshot.Chain changed other x →
      ∃ v ∈ level version (start depth lastId changed snapshot) (other.length - 1),
        v.path lastId = other ∧ v.row.id ≤ visit.row.id := by
    intro other hnil hother
    rcases exists_path_eq horderly hready hcycle version hnil hother with ⟨v, hv, hvSlot, hvPath⟩
    exact ⟨v, hv, hvPath, hlast.newest v (mem_visits_of_mem_level horderly hready hdepth hv)
      (hvSlot.trans hx.symm)⟩
  refine ⟨visit, visit.path lastId, hlast, hx, ⟨⟨hpath, fun other hother => ?_⟩,
    fun other hother hsame => ?_⟩, hlast.snapshot_eq horderly hready hdepth hcycle hlevel hnewer⟩
  · by_cases hnil : other = []
    · simp [hnil]
    · rcases hvisits other hnil hother with ⟨v, hv, -, hle⟩
      by_contra hlonger
      have hlater := id_lt_of_level_lt (by omega) hlevel hv
      omega
  · have hnil : other ≠ [] := List.ne_nil_of_length_eq_add_one (hsame.trans hlength)
    rcases hvisits other hnil hother with ⟨v, hv, rfl, hle⟩
    rw [hsame, hlength, Nat.add_sub_cancel] at hv
    rcases Nat.eq_or_lt_of_le hle with heq | hlt
    · exact Or.inl (congrArg (Visit.path lastId) (eq_of_mem_sweep hv hlevel heq))
    · exact Or.inr (precedes_of_id_lt horderly hready hcycle hv hlevel hlt)

end

end Cascade

end SheetLedger
