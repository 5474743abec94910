import SheetLedger.Proofs.Cascade.Cone

/-!
# The order of the visits

The ids of the rows of a cascade say which visit is later. A visit of a deeper level is later than
every visit of a level above (`Cascade.id_lt_of_level_lt`). Within a level the visits stand in the
order of their *paths*, which are the slots renewed on the way (`Cascade.precedes_of_id_lt`). Where
no slot reaches itself the paths of the visits are the chains from the changed slot, one visit for
each (`Cascade.chain_path`, `Cascade.exists_path_eq`).
-/

namespace SheetLedger

/-- The slots of an entry's cells that were stored after an id was given. -/
def Pending.renewed (lastId : Nat) (entry : Pending) : List Slot :=
  (List.filter (fun cell => lastId < cell.id) entry.snapshot).map (·.slot)

/-- The slots renewed on the way to a visit, its own one last. -/
def Visit.path (lastId : Nat) (visit : Visit) : List Slot := visit.follow.renewed lastId

namespace Cascade

variable {base : Snapshot} {sheet : String} {version lastId depth k l : Nat} {changed slot : Slot}
  {frontier : Frontier} {visit other before : Visit}

/-! ## Later visits have higher ids -/

theorem level_succ (version : Nat) (frontier : Frontier) (k : Nat) :
    level version frontier (k + 1) =
      sweep version ((Frontier.next version)^[k + 1] frontier).lastId
        ((level version frontier k).map Visit.follow) := by
  unfold level
  dsimp only
  rw [Function.iterate_succ_apply']
  rfl

/-- What a visit of a level below follows from. -/
theorem exists_follow_of_mem_level (h : visit ∈ level version frontier (k + 1)) :
    ∃ before ∈ level version frontier k, visit.entry = before.follow := by
  rw [level_succ] at h
  rcases List.mem_map.1 (mem_sweep h).1 with ⟨before, hbefore, hentry⟩
  exact ⟨before, hbefore, hentry.symm⟩

theorem id_of_mem_level (h : visit ∈ level version frontier k) :
    ((Frontier.next version)^[k] frontier).lastId < visit.row.id ∧
      visit.row.id ≤ ((Frontier.next version)^[k + 1] frontier).lastId := by
  rw [Function.iterate_succ_apply']
  exact id_of_mem_sweep h

theorem lastId_iterate_mono (version : Nat) (frontier : Frontier) (h : k ≤ l) :
    ((Frontier.next version)^[k] frontier).lastId ≤
      ((Frontier.next version)^[l] frontier).lastId := by
  induction h with
  | refl => exact Nat.le_refl _
  | step _ ih =>
    rw [Function.iterate_succ_apply']
    exact Nat.le_trans ih (Nat.le_add_right _ _)

/-- A visit of a deeper level is later. -/
theorem id_lt_of_level_lt (h : k < l) (hvisit : visit ∈ level version frontier k)
    (hother : other ∈ level version frontier l) : visit.row.id < other.row.id := by
  have hmono := lastId_iterate_mono version frontier (Nat.succ_le_of_lt h)
  have hle := (id_of_mem_level hvisit).2
  have hlt := (id_of_mem_level hother).1
  simp only [Nat.succ_eq_add_one] at hmono
  omega

/-- All visits are later than what was stored when the cascade started. -/
theorem lastId_lt_of_mem_level (h : visit ∈ level version frontier k) :
    frontier.lastId < visit.row.id :=
  Nat.lt_of_le_of_lt (lastId_iterate_mono version frontier (Nat.zero_le k)) (id_of_mem_level h).1

/-- The visits of a sweep stand in the order of their ids. -/
theorem increasing_sweep (version lastId : Nat) (entries : List Pending) :
    (sweep version lastId entries).Pairwise fun a b => a.row.id < b.row.id := by
  have hids : ((sweep version lastId entries).map (·.row.id)).Pairwise (· < ·) := by
    rw [ids_sweep]
    exact List.pairwise_lt_range'
  exact List.pairwise_map.1 hids

theorem eq_of_mem_sweep {entries : List Pending} (hvisit : visit ∈ sweep version lastId entries)
    (hother : other ∈ sweep version lastId entries) (h : visit.row.id = other.row.id) :
    visit = other := by
  have hids := (increasing_sweep version lastId entries).imp Nat.ne_of_lt
  exact List.inj_on_of_nodup_map (List.pairwise_map.2 hids) hvisit hother h

/-- The row is the last cell of the snapshot that follows from a visit. -/
theorem row_eq_of_follow_eq (h : visit.follow = other.follow) : visit.row = other.row := by
  have hsnapshot : visit.entry.snapshot.without visit.row.slot ++ [visit.row] =
      other.entry.snapshot.without other.row.slot ++ [other.row] := congrArg Pending.snapshot h
  have hlast := List.append_inj_right' hsnapshot rfl
  exact List.head_eq_of_cons_eq hlast

/-- Of two visits to one level, those that follow from the later one are later. -/
theorem id_lt_of_follow {visits : List Visit} {before after : Visit}
    (hincreasing : visits.Pairwise fun a b => a.row.id < b.row.id)
    (hbefore : before ∈ visits) (hafter : after ∈ visits) (hlt : before.row.id < after.row.id)
    (hvisit : visit ∈ sweep version lastId (visits.map Visit.follow))
    (hother : other ∈ sweep version lastId (visits.map Visit.follow))
    (hentry : visit.entry = before.follow) (hentry' : other.entry = after.follow) :
    visit.row.id < other.row.id := by
  -- the sweep splits in front of the entry that follows from `after`
  rcases List.append_of_mem hafter with ⟨front, back, rfl⟩
  rw [List.pairwise_append, List.pairwise_cons] at hincreasing
  rcases hincreasing with ⟨-, ⟨hback, -⟩, hfront⟩
  rw [List.map_append, sweep_append, List.mem_append] at hvisit hother
  -- `before` is in front of the split, because the ids behind it are not below that of `after`
  have hleft : visit ∈ sweep version lastId (front.map Visit.follow) := by
    refine hvisit.resolve_right ?_
    intro hright
    rcases List.mem_map.1 (mem_sweep hright).1 with ⟨w, hw, hfollow⟩
    have hrow : w.row = before.row := row_eq_of_follow_eq (hfollow.trans hentry)
    rcases List.mem_cons.1 hw with rfl | hmem
    · rw [hrow] at hlt
      exact Nat.lt_irrefl _ hlt
    · have hwlt := hback w hmem
      rw [hrow] at hwlt
      exact Nat.lt_asymm hlt hwlt
  -- and what follows from `after` is not
  have hright := hother.resolve_left fun hleft => by
    rcases List.mem_map.1 (mem_sweep hleft).1 with ⟨w, hw, hfollow⟩
    have hrow : w.row = after.row := row_eq_of_follow_eq (hfollow.trans hentry')
    have hwlt := hfront w hw after List.mem_cons_self
    rw [hrow] at hwlt
    exact Nat.lt_irrefl _ hwlt
  have hle := (id_of_mem_sweep hleft).2
  have hlt' := (id_of_mem_sweep hright).1
  omega

/-- Of two visits for one entry the later one is to the dependent with the higher id. -/
theorem exists_lt_of_mem_visitAll {entry : Pending} {dependents : List Cell}
    (hids : dependents.Pairwise fun a b => a.id < b.id)
    (hvisit : visit ∈ visitAll version entry lastId dependents)
    (hother : other ∈ visitAll version entry lastId dependents)
    (hlt : visit.row.id < other.row.id) :
    ∃ a ∈ dependents, ∃ b ∈ dependents,
      a.slot = visit.row.slot ∧ b.slot = other.row.slot ∧ a.id < b.id := by
  induction dependents generalizing lastId with
  | nil => cases hvisit
  | cons dependent rest ih =>
    rw [List.pairwise_cons] at hids
    have hrest : ∀ {v : Visit}, v ∈ visitAll version entry (lastId + 1) rest →
        lastId + 1 < v.row.id ∧ ∃ d ∈ rest, d.slot = v.row.slot := by
      intro v hv
      have hid : v.row.id ∈ (visitAll version entry (lastId + 1) rest).map (·.row.id) :=
        List.mem_map_of_mem hv
      have hslot : v.row.slot ∈ (visitAll version entry (lastId + 1) rest).map (·.row.slot) :=
        List.mem_map_of_mem hv
      rw [ids_visitAll, List.mem_range'_1] at hid
      rw [slots_visitAll, List.mem_map] at hslot
      exact ⟨by omega, hslot⟩
    rcases List.mem_cons.1 hvisit with rfl | hvisit
    · rcases List.mem_cons.1 hother with rfl | hother
      · exact absurd hlt (Nat.lt_irrefl _)
      · rcases hrest hother with ⟨-, d, hd, hslot⟩
        exact ⟨dependent, List.mem_cons_self, d, List.mem_cons_of_mem _ hd, rfl, hslot,
          hids.1 d hd⟩
    · rcases List.mem_cons.1 hother with rfl | hother
      · exact absurd hlt (Nat.lt_asymm (hrest hvisit).1)
      · rcases ih hids.2 hvisit hother with ⟨a, ha, b, hb, hab⟩
        exact ⟨a, List.mem_cons_of_mem _ ha, b, List.mem_cons_of_mem _ hb, hab⟩

@[inherit_doc exists_lt_of_mem_visitAll]
theorem exists_lt_of_mem_sweep {entries : List Pending} (hnodup : entries.Nodup)
    (hids : ∀ e ∈ entries, (e.snapshot.dependents e.changed).Pairwise fun a b => a.id < b.id)
    (hvisit : visit ∈ sweep version lastId entries) (hother : other ∈ sweep version lastId entries)
    (hentry : visit.entry = other.entry) (hlt : visit.row.id < other.row.id) :
    ∃ a ∈ visit.entry.snapshot.dependents visit.entry.changed,
      ∃ b ∈ visit.entry.snapshot.dependents visit.entry.changed,
        a.slot = visit.row.slot ∧ b.slot = other.row.slot ∧ a.id < b.id := by
  induction entries generalizing lastId with
  | nil => cases hvisit
  | cons entry rest ih =>
    rw [List.nodup_cons] at hnodup
    -- an entry stands once in the list, so both visits are on the same side
    rcases List.mem_append.1 hvisit with hvisit | hvisit
    · have hfirst := (mem_visitAll hvisit).1
      rcases List.mem_append.1 hother with hother | hother
      · rw [hfirst]
        exact exists_lt_of_mem_visitAll (hids entry List.mem_cons_self) hvisit hother hlt
      · have hin := (mem_sweep hother).1
        rw [← hentry, hfirst] at hin
        exact absurd hin hnodup.1
    · rcases List.mem_append.1 hother with hother | hother
      · have hin := (mem_sweep hvisit).1
        rw [hentry, (mem_visitAll hother).1] at hin
        exact absurd hin hnodup.1
      · exact ih hnodup.2 (fun e he => hids e (List.mem_cons_of_mem _ he)) hvisit hother

/-- No entry stands twice in a frontier. -/
theorem nodup_iterate (version : Nat) (frontier : Frontier) (h : frontier.entries.Nodup) (k : Nat) :
    ((Frontier.next version)^[k] frontier).entries.Nodup := by
  cases k with
  | zero => exact h
  | succ k =>
    rw [Function.iterate_succ_apply']
    refine List.pairwise_map.2 ((increasing_sweep version _ _).imp ?_)
    intro a b hlt heq
    rw [row_eq_of_follow_eq heq] at hlt
    exact Nat.lt_irrefl _ hlt

/-- The cells of an entry are those that the cascade started from, or rows of levels above. -/
theorem mem_or_exists_visit_of_mem_iterate {snapshot : Snapshot} {entry : Pending}
    (h : entry ∈ ((Frontier.next version)^[k] (start depth lastId changed snapshot)).entries)
    {cell : Cell} (hcell : cell ∈ entry.snapshot) :
    cell ∈ snapshot ∨ ∃ l < k, ∃ visit ∈ level version (start depth lastId changed snapshot) l,
      visit.row = cell := by
  induction k generalizing entry with
  | zero =>
    rw [List.mem_singleton.1 h] at hcell
    exact Or.inl hcell
  | succ k ih =>
    rw [Function.iterate_succ_apply'] at h
    rcases List.mem_map.1 h with ⟨visit, hvisit, rfl⟩
    rcases Snapshot.mem_replace.1 hcell with ⟨hold, -⟩ | rfl
    · rcases ih (mem_sweep hvisit).1 hold with hmem | ⟨l, hl, other, hother, hrow⟩
      · exact Or.inl hmem
      · exact Or.inr ⟨l, Nat.lt_succ_of_lt hl, other, hother, hrow⟩
    · exact Or.inr ⟨k, Nat.lt_succ_self k, visit, hvisit, rfl⟩

/-- The cells of an entry are those that the cascade started from, or later ones. -/
theorem mem_or_lt_of_mem_iterate {snapshot : Snapshot} {entry : Pending}
    (h : entry ∈ ((Frontier.next version)^[k] (start depth lastId changed snapshot)).entries)
    {cell : Cell} (hcell : cell ∈ entry.snapshot) : cell ∈ snapshot ∨ lastId < cell.id := by
  rcases mem_or_exists_visit_of_mem_iterate h hcell with hmem | ⟨l, -, visit, hvisit, rfl⟩
  · exact Or.inl hmem
  · exact Or.inr (lastId_lt_of_mem_level hvisit)

/-! ## Paths -/

/-- A visit goes one slot further than its entry, if that slot is a new one. -/
theorem path_eq_concat (hid : lastId < visit.row.id)
    (hnew : visit.row.slot ∉ visit.entry.renewed lastId) :
    visit.path lastId = visit.entry.renewed lastId ++ [visit.row.slot] := by
  -- none of the cells renewed before is taken out
  have hkept : List.filter (fun cell => lastId < cell.id)
      (visit.entry.snapshot.without visit.row.slot) =
        List.filter (fun cell => lastId < cell.id) visit.entry.snapshot := by
    unfold Snapshot.without
    rw [List.filter_comm, List.filter_eq_self]
    intro cell hcell
    refine decide_eq_true fun hslot => hnew ?_
    rw [← hslot]
    exact List.mem_map_of_mem hcell
  show (List.filter _ (visit.entry.snapshot.without visit.row.slot ++ [visit.row])).map _ = _
  rw [List.filter_append, hkept, List.map_append]
  simp [Pending.renewed, hid]

section

variable {snapshot : Snapshot} (horderly : snapshot.Orderly)
  (hready : (start depth lastId changed snapshot).Ready snapshot sheet)
  (hcycle : ∀ x, ¬ snapshot.Reaches x x)

include hready

/-- Nothing has been renewed when a cascade starts. -/
theorem renewed_of_level_zero
    (h : visit ∈ level version (start depth lastId changed snapshot) 0) :
    visit.entry.renewed lastId = [] := by
  rw [List.mem_singleton.1 (mem_sweep h).1, Pending.renewed, List.map_eq_nil_iff,
    List.filter_eq_nil_iff]
  intro cell hcell hlt
  have hle := (hready _ List.mem_cons_self).id_le cell hcell
  exact Nat.not_lt.2 hle (of_decide_eq_true hlt)

theorem path_of_level_zero
    (h : visit ∈ level version (start depth lastId changed snapshot) 0) :
    visit.path lastId = [visit.row.slot] := by
  have hnone := renewed_of_level_zero hready h
  have hid : lastId < visit.row.id := (id_of_mem_sweep h).1
  rw [path_eq_concat hid (by simp [hnone]), hnone, List.nil_append]

include horderly

/-- A visit is followed by one to every slot that its own one feeds. -/
theorem exists_follow_of_feeds
    (hbefore : before ∈ level version (start depth lastId changed snapshot) k)
    (h : snapshot.Feeds before.row.slot slot) :
    ∃ visit ∈ level version (start depth lastId changed snapshot) (k + 1),
      visit.entry = before.follow ∧ visit.row.slot = slot := by
  have hin : before.follow ∈ ((Frontier.next version)^[k + 1]
      (start depth lastId changed snapshot)).entries := by
    rw [Function.iterate_succ_apply']
    exact List.mem_map_of_mem hbefore
  exact exists_mem_sweep_of_feeds horderly (hready.iterate version (k + 1)) hin h

/-- Of two visits for one entry the later one is to the cell with the higher id. -/
theorem idAt_lt_of_entry_eq (hvisit : visit ∈ level version (start depth lastId changed snapshot) k)
    (hother : other ∈ level version (start depth lastId changed snapshot) k)
    (hentry : visit.entry = other.entry) (hlt : visit.row.id < other.row.id)
    (hnew : visit.row.slot ∉ visit.entry.renewed lastId)
    (hnew' : other.row.slot ∉ visit.entry.renewed lastId) :
    snapshot.idAt visit.row.slot < snapshot.idAt other.row.slot := by
  have hin := (mem_sweep hvisit).1
  have hentries := hready.iterate version k
  obtain ⟨a, ha, b, hb, haSlot, hbSlot, hab⟩ := exists_lt_of_mem_sweep
    (nodup_iterate version (start depth lastId changed snapshot) (by simp [start]) k)
    (fun e he => ((hentries e he).orderly.increasing.filter _)) hvisit hother hentry hlt
  -- neither has been renewed, so both stand in the first snapshot with these ids
  have hfirst : ∀ {cell : Cell} {x : Slot}, cell ∈ visit.entry.snapshot → cell.slot = x →
      x ∉ visit.entry.renewed lastId → snapshot.idAt x = cell.id := by
    intro cell x hcell hslot hold
    rcases mem_or_lt_of_mem_iterate hin hcell with hmem | hlate
    · rw [Snapshot.idAt, horderly.find?_eq_some_iff.2 ⟨hmem, hslot⟩]
      rfl
    · refine absurd ?_ hold
      rw [← hslot]
      exact List.mem_map_of_mem (List.mem_filter.2 ⟨hcell, decide_eq_true hlate⟩)
  rw [hfirst (Snapshot.mem_dependents.1 ha).1 haSlot hnew,
    hfirst (Snapshot.mem_dependents.1 hb).1 hbSlot hnew']
  exact hab

include hcycle

/-- A visit goes on from the end of a chain to a slot that is not on it. -/
theorem path_of_follow
    (hvisit : visit ∈ level version (start depth lastId changed snapshot) (k + 1))
    (hentry : visit.entry = before.follow)
    (hchain : snapshot.Chain changed (before.path lastId) before.row.slot) :
    snapshot.Feeds before.row.slot visit.row.slot ∧
      visit.row.slot ∉ before.path lastId ∧
      visit.path lastId = before.path lastId ++ [visit.row.slot] := by
  have hid : lastId < visit.row.id := lastId_lt_of_mem_level hvisit
  have hfeeds : snapshot.Feeds before.row.slot visit.row.slot := by
    have hstep := feeds_of_mem_sweep horderly (hready.iterate version (k + 1)) hvisit
    rw [hentry] at hstep
    exact hstep
  have hnew : visit.row.slot ∉ before.path lastId := by
    intro hmem
    refine hcycle visit.row.slot ?_
    rcases hchain.reaches_of_mem hmem with heq | hreach
    · exact absurd heq hfeeds.1
    · exact hreach.trans (.of_feeds hfeeds)
  have hrenewed : visit.entry.renewed lastId = before.path lastId := by
    rw [hentry]
    rfl
  refine ⟨hfeeds, hnew, ?_⟩
  rw [path_eq_concat hid (hrenewed ▸ hnew), hrenewed]

/-- The path of a visit is a chain, as long as the level is deep. -/
theorem chain_path (h : visit ∈ level version (start depth lastId changed snapshot) k) :
    (visit.path lastId).length = k + 1 ∧
      snapshot.Chain changed (visit.path lastId) visit.row.slot := by
  induction k generalizing visit with
  | zero =>
    have hfeeds := feeds_of_mem_sweep horderly hready h
    rw [List.mem_singleton.1 (mem_sweep h).1] at hfeeds
    rw [path_of_level_zero hready h]
    exact ⟨rfl, .single hfeeds⟩
  | succ k ih =>
    rcases exists_follow_of_mem_level h with ⟨before, hbefore, hentry⟩
    rcases ih hbefore with ⟨hlength, hchain⟩
    rcases path_of_follow horderly hready hcycle h hentry hchain with ⟨hfeeds, -, hpath⟩
    rw [hpath]
    exact ⟨by simp [hlength], hchain.snoc hfeeds⟩

/-- Every chain that leaves its first slot is the path of a visit. -/
theorem exists_path_eq (version : Nat) {path : List Slot} {last : Slot} (hne : path ≠ [])
    (h : snapshot.Chain changed path last) :
    ∃ visit ∈ level version (start depth lastId changed snapshot) (path.length - 1),
      visit.row.slot = last ∧ visit.path lastId = path := by
  induction h with
  | nil => exact absurd rfl hne
  | @snoc path middle next hbefore hfeeds ih =>
    by_cases hnil : path = []
    · subst hnil
      obtain rfl := Snapshot.chain_nil_iff.1 hbefore
      obtain ⟨visit, hvisit, -, hslot⟩ :=
        exists_mem_sweep_of_feeds horderly hready List.mem_cons_self hfeeds
      refine ⟨visit, hvisit, hslot, ?_⟩
      rw [path_of_level_zero hready hvisit, hslot]
      rfl
    · rcases ih hnil with ⟨before, hlevel, rfl, rfl⟩
      rcases Nat.exists_eq_succ_of_ne_zero (mt List.length_eq_zero_iff.1 hnil) with ⟨k, hk⟩
      rw [hk] at hlevel
      obtain ⟨visit, hvisit, hentry, hslot⟩ :=
        exists_follow_of_feeds horderly hready hlevel hfeeds
      refine ⟨visit, ?_, hslot, ?_⟩
      · simpa [hk] using hvisit
      · rw [(path_of_follow horderly hready hcycle hvisit hentry hbefore).2.2, hslot]

/-- Within a level the visits stand in the order of their paths. -/
theorem precedes_of_id_lt (hvisit : visit ∈ level version (start depth lastId changed snapshot) k)
    (hother : other ∈ level version (start depth lastId changed snapshot) k)
    (hlt : visit.row.id < other.row.id) :
    snapshot.Precedes (visit.path lastId) (other.path lastId) := by
  induction k generalizing visit other with
  | zero =>
    have hentry := List.mem_singleton.1 (mem_sweep hvisit).1
    have hentry' := List.mem_singleton.1 (mem_sweep hother).1
    rw [path_of_level_zero hready hvisit, path_of_level_zero hready hother]
    refine .rel (idAt_lt_of_entry_eq horderly hready hvisit hother (hentry.trans hentry'.symm) hlt
      ?_ ?_) <;> simp [renewed_of_level_zero hready hvisit]
  | succ k ih =>
    rcases exists_follow_of_mem_level hvisit with ⟨before, hbefore, hentry⟩
    rcases exists_follow_of_mem_level hother with ⟨before', hbefore', hentry'⟩
    rcases chain_path horderly hready hcycle hbefore with ⟨hlength, hchain⟩
    rcases chain_path horderly hready hcycle hbefore' with ⟨hlength', hchain'⟩
    rcases path_of_follow horderly hready hcycle hvisit hentry hchain with ⟨-, hnew, hpath⟩
    rcases path_of_follow horderly hready hcycle hother hentry' hchain' with ⟨-, hnew', hpath'⟩
    rw [hpath, hpath']
    -- the order of the visits above decides, or else the order of one entry's dependents
    rcases Nat.lt_trichotomy before.row.id before'.row.id with hless | heq | hmore
    · exact (ih hbefore hbefore' hless).concat (hlength.trans hlength'.symm) _ _
    · obtain rfl := eq_of_mem_sweep hbefore hbefore' heq
      have hrenewed : visit.entry.renewed lastId = before.path lastId := by
        rw [hentry]
        rfl
      have hid := idAt_lt_of_entry_eq horderly hready hvisit hother (hentry.trans hentry'.symm) hlt
        (hrenewed ▸ hnew) (hrenewed ▸ hnew')
      exact Snapshot.precedes_concat _ hid
    · rw [level_succ] at hvisit hother
      have hback := id_lt_of_follow (increasing_sweep _ _ _) hbefore' hbefore hmore hother hvisit
        hentry' hentry
      exact absurd hlt (Nat.lt_asymm hback)

end

end Cascade

end SheetLedger
