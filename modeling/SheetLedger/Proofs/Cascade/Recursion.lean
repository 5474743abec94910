import SheetLedger.Engine.Cascade
import SheetLedger.Proofs.Reading
import SheetLedger.Proofs.Store.Writing
import SheetLedger.Store.Log

/-!
# The cascade as a recursion

The queue of a cascade holds what is left of one level and, behind it, the work of the next one. So
working it off is the same program as going down level by level (`Cascade.propagate_eq_descend`),
over any store.

Which rows the levels hold is settled by the ids that the store gives to them (`Cascade.Levels`): a
level has one row for each dependent of each row above it, computed from the snapshot of that row.
A cascade writes these rows, one level after the other, until the store complains
(`Cascade.writes_descend`). No dependent is without a value on the way, because it reads a slot
where a cell stands. And no snapshot grows, so that a cascade ends even where cells read each other
in a circle (`Cascade.Levels.length_add_le`).
-/

namespace SheetLedger.Cascade

variable {σ : Type} [CellStore σ]

/-! ## The recursion -/

/-- What the rows of a level come from: a changed slot, and the snapshot that its dependents are
computed from. -/
structure Origin where
  changed : Slot
  snapshot : Snapshot

namespace Origin

/-- The origin of the rows of the next level that follow from a row. -/
def follow (origin : Origin) (row : Cell) : Origin := ⟨row.slot, origin.snapshot.replace row⟩

/-- The entry of the queue with this origin. -/
def pending (levels : Nat) (origin : Origin) : Pending :=
  ⟨origin.changed, origin.snapshot, levels⟩

/-- A cell stands at the changed slot. -/
def Stands (origin : Origin) : Prop := ∃ cell ∈ origin.snapshot, cell.slot = origin.changed

/-- The row that a dependent is stored as: with the value of its formula in the snapshot, and
otherwise as it is but for its id and the version. -/
def RowFor (version : Nat) (origin : Origin) (dependent row : Cell) : Prop :=
  dependent.formula.evaluate origin.snapshot = .ok row.computed ∧
    row = { dependent with id := row.id, computed := row.computed, version := version }

/-- The rows that come from an origin, one for each dependent in the order of the snapshot. -/
def Yields (version : Nat) (origin : Origin) (rows : List Cell) : Prop :=
  List.Forall₂ (RowFor version origin) (origin.snapshot.dependents origin.changed) rows

end Origin

/-- The origins that follow from the rows of a level, in the order of the rows. -/
def below (origins : List Origin) (groups : List (List Cell)) : List Origin :=
  (origins.zip groups).flatMap fun (origin, rows) => rows.map origin.follow

@[simp] theorem below_nil : below [] [] = [] := rfl

@[simp] theorem below_cons (origin : Origin) (origins : List Origin) (rows : List Cell)
    (groups : List (List Cell)) :
    below (origin :: origins) (rows :: groups) =
      rows.map origin.follow ++ below origins groups := rfl

/-- The levels of rows that come from some origins: the first one holds what comes from each of
them, and the others come from the rows of the first one. -/
inductive Levels (version : Nat) : Nat → List Origin → List (List Cell) → Prop
  | nil {origins : List Origin} : Levels version 0 origins []
  | cons {depth : Nat} {origins : List Origin} {groups levels : List (List Cell)} :
      List.Forall₂ (Origin.Yields version) origins groups →
        Levels version depth (below origins groups) levels →
          Levels version (depth + 1) origins (groups.flatten :: levels)

/-- The rows for the dependents of an origin are computed and stored. -/
def refreshFrom (version : Nat) (origin : Origin) : EStateM EngineError σ (List Cell) :=
  refreshAll version origin.snapshot (origin.snapshot.dependents origin.changed)

/-- The cascade as a recursion over its levels. The answer is the rows of each level. -/
def descend (version : Nat) : Nat → List Origin → EStateM EngineError σ (List (List Cell))
  | 0, _ => pure []
  | depth + 1, origins => do
    let groups ← origins.mapM (refreshFrom version)
    let levels ← descend version depth (below origins groups)
    return groups.flatten :: levels

/-! ## The queue and the recursion -/

variable {store mid later : σ} {version n : Nat} {entry : Pending} {origin : Origin}
  {dependent : Cell}

/-- Working off a queue is working off its first entry, and then what is left. -/
theorem run_cons_eq (entry : Pending) (queue : List Pending) :
    (run version (entry :: queue) : EStateM EngineError σ (List Cell)) =
      (refreshAll version entry.snapshot (entry.snapshot.dependents entry.changed) >>=
        fun rows => run version (queue ++ entry.next rows) >>= fun more =>
          pure (rows ++ more)) := by
  funext store
  rw [run]
  simp only [bind, EStateM.bind, pure, EStateM.pure]
  split
  · rename_i hrows
    rw [hrows]
  · rename_i rows mid hrows
    rw [hrows]
    dsimp only
    cases run version (queue ++ entry.next rows) mid <;> rfl

theorem run_cons {queue : List Pending} {rows more : List Cell}
    (h : refreshAll version entry.snapshot (entry.snapshot.dependents entry.changed) store =
      .ok rows mid)
    (hmore : run version (queue ++ entry.next rows) mid = .ok more later) :
    run version (entry :: queue) store = .ok (rows ++ more) later := by
  simp only [run_cons_eq, bind, EStateM.bind, pure, EStateM.pure, h, hmore]

/-- Working off a queue is working off the entries of one level, and then the entries behind them
with those of the next level behind these. -/
theorem run_level_append (origins : List Origin) (queue : List Pending) :
    (run version (origins.map (Origin.pending n) ++ queue) :
        EStateM EngineError σ (List Cell)) =
      (origins.mapM (refreshFrom version) >>= fun groups =>
        run version (queue ++
          if n ≤ 1 then [] else (below origins groups).map (Origin.pending (n - 1))) >>= fun more =>
        pure (groups.flatten ++ more)) := by
  induction origins generalizing queue with
  | nil => simp
  | cons origin rest ih =>
    have hnext : ∀ rows : List Cell, (origin.pending n).next rows =
        if n ≤ 1 then [] else (rows.map origin.follow).map (Origin.pending (n - 1)) := by
      intro rows
      simp only [Pending.next, List.map_map]
      rfl
    rw [List.map_cons, List.cons_append, run_cons_eq, List.mapM_cons]
    simp only [bind_assoc, pure_bind, refreshFrom]
    refine bind_congr fun rows => ?_
    rw [List.append_assoc, ih]
    simp only [bind_assoc, pure_bind, hnext]
    refine bind_congr fun groups => ?_
    by_cases hn : n ≤ 1 <;> simp [hn]

/-- A queue of one level leaves the next one. -/
theorem run_level (depth : Nat) (origins : List Origin) :
    (run version (origins.map (Origin.pending (depth + 1))) : EStateM EngineError σ (List Cell)) =
      (origins.mapM (refreshFrom version) >>= fun groups =>
        run version
            (if depth = 0 then [] else (below origins groups).map (Origin.pending depth)) >>=
          fun more => pure (groups.flatten ++ more)) := by
  have h := @run_level_append σ _ version (depth + 1) origins []
  simpa using h

/-- The rows of the queue are those of the recursion, one level after the other. -/
theorem run_eq_descend (depth : Nat) (origins : List Origin) :
    (run version (origins.map (Origin.pending (depth + 1))) : EStateM EngineError σ (List Cell)) =
      List.flatten <$> descend version (depth + 1) origins := by
  induction depth generalizing origins with
  | zero =>
    -- on the last level nothing is left of the queue
    have hdone : (run version [] : EStateM EngineError σ (List Cell)) = pure [] := by rw [run]
    rw [run_level]
    simp [descend, hdone]
  | succ depth ih =>
    rw [run_level, descend]
    simp [ih]

/-- A cascade is the recursion from the slot that has changed. -/
theorem propagate_eq_descend (depth version : Nat) (changed : Slot) (snapshot : Snapshot) :
    (propagate depth version changed snapshot : EStateM EngineError σ (List Cell)) =
      List.flatten <$> descend version depth [⟨changed, snapshot⟩] := by
  cases depth with
  | zero => simp [propagate, descend]
  | succ depth => exact run_eq_descend depth [⟨changed, snapshot⟩]

/-! ## What the recursion writes -/

/-- A dependent of an origin where a cell stands has a row. -/
theorem Origin.Stands.exists_rowFor (h : origin.Stands) (version : Nat)
    (hdep : dependent ∈ origin.snapshot.dependents origin.changed) :
    ∃ row, origin.RowFor version dependent row := by
  obtain ⟨value, hvalue⟩ :=
    Formula.exists_value_of_dependsOn (Snapshot.mem_dependents.1 hdep).2.2 h
  exact ⟨{ dependent with computed := value, version := version }, hvalue, rfl⟩

theorem writes_refresh (h : ∃ row, origin.RowFor version dependent row) (store : σ) :
    Writes store (origin.RowFor version dependent) (fun row => [row])
      (refresh version origin.snapshot dependent store) := by
  rcases h with ⟨⟨_, _, _, _, value, _⟩, hvalue, -⟩
  simp only [refresh, hvalue, Except.mapError, orStop, bind, EStateM.bind, pure, EStateM.pure,
    EStateM.adaptExcept]
  cases hinsert : CellStore.insert
      { dependent with id := 0, computed := value, version := version } store with
  | ok id later => exact ⟨⟨hvalue, rfl⟩, .insert .start hinsert⟩
  | error complaint later =>
    exact ⟨{ dependent with id := 0, computed := value, version := version }, [], _, [], store,
      complaint, ⟨hvalue, rfl⟩, rfl, .start, hinsert, rfl⟩

theorem refreshAll_eq_mapM (snapshot : Snapshot) (dependents : List Cell) :
    (refreshAll version snapshot dependents : EStateM EngineError σ (List Cell)) =
      dependents.mapM (refresh version snapshot) := by
  induction dependents with
  | nil => rfl
  | cons dependent rest ih => rw [refreshAll, List.mapM_cons, ih]

theorem Origin.Stands.exists_yields (h : origin.Stands) (version : Nat) :
    ∃ rows, origin.Yields version rows :=
  exists_forall₂ fun _ hdep => h.exists_rowFor version hdep

theorem writes_refreshFrom (h : origin.Stands) (store : σ) :
    Writes store (origin.Yields version) id (refreshFrom version origin store) := by
  have hrows := Writes.mapM (fun _ hdep => h.exists_rowFor version hdep)
    (fun _ hdep => writes_refresh (h.exists_rowFor version hdep)) store
  rw [← refreshAll_eq_mapM] at hrows
  have hid : List.flatMap (fun row : Cell => [row]) = id := funext List.flatMap_singleton'
  rwa [hid] at hrows

/-- A cell stands where a row has been put in. -/
theorem stands_of_mem_below {origins : List Origin} {groups : List (List Cell)} :
    ∀ next ∈ below origins groups, next.Stands := by
  intro next hnext
  rcases List.mem_flatMap.1 hnext with ⟨⟨origin, rows⟩, -, hmem⟩
  rcases List.mem_map.1 hmem with ⟨row, -, rfl⟩
  exact ⟨row, Snapshot.mem_replace.2 (Or.inr rfl), rfl⟩

/-- Origins where cells stand have levels below them. -/
theorem exists_levels (version depth : Nat) {origins : List Origin}
    (h : ∀ origin ∈ origins, origin.Stands) : ∃ levels, Levels version depth origins levels := by
  induction depth generalizing origins with
  | zero => exact ⟨[], .nil⟩
  | succ depth ih =>
    obtain ⟨groups, hgroups⟩ := exists_forall₂ fun o ho => (h o ho).exists_yields version
    obtain ⟨levels, hlevels⟩ := @ih (below origins groups) stands_of_mem_below
    exact ⟨groups.flatten :: levels, .cons hgroups hlevels⟩

/-- The recursion writes the rows of its levels. -/
theorem writes_descend (depth : Nat) {origins : List Origin}
    (h : ∀ origin ∈ origins, origin.Stands) (store : σ) :
    Writes store (Levels version depth origins) List.flatten
      (descend version depth origins store) := by
  induction depth generalizing origins store with
  | zero => exact ⟨.nil, .start⟩
  | succ depth ih =>
    have hgroups := Writes.mapM (fun o ho => (h o ho).exists_yields version)
      (fun o ho => writes_refreshFrom (h o ho)) store
    refine Writes.bind hgroups
      (fun groups _ => ⟨exists_levels version depth stands_of_mem_below, ih stands_of_mem_below⟩) ?_
    intro groups levels hyields hlevels
    exact ⟨.cons hyields hlevels, by simp⟩

/-! ## Where rows come from -/

variable {origins : List Origin} {groups : List (List Cell)} {row : Cell}

theorem Origin.RowFor.slot_eq (h : origin.RowFor version dependent row) :
    row.slot = dependent.slot := by
  rw [h.2]

theorem Origin.RowFor.version_eq (h : origin.RowFor version dependent row) :
    row.version = version := by
  rw [h.2]

theorem Origin.Yields.exists_dependent {rows : List Cell} (h : origin.Yields version rows)
    (hrow : row ∈ rows) :
    ∃ dependent ∈ origin.snapshot.dependents origin.changed,
      origin.RowFor version dependent row := by
  unfold Origin.Yields at h
  generalize origin.snapshot.dependents origin.changed = dependents at h
  induction h with
  | nil => cases hrow
  | @cons dependent first dependents rest hfirst _ ih =>
    rcases List.mem_cons.1 hrow with rfl | hmem
    · exact ⟨dependent, List.mem_cons_self, hfirst⟩
    · obtain ⟨d, hd, hfor⟩ := ih hmem
      exact ⟨d, List.mem_cons_of_mem _ hd, hfor⟩

theorem exists_of_mem_flatten (h : List.Forall₂ (Origin.Yields version) origins groups)
    (hrow : row ∈ groups.flatten) :
    ∃ origin ∈ origins, ∃ dependent ∈ origin.snapshot.dependents origin.changed,
      origin.RowFor version dependent row := by
  induction h with
  | nil => cases hrow
  | @cons origin rows origins groups hrows _ ih =>
    rcases List.mem_append.1 hrow with hmem | hmem
    · exact ⟨origin, List.mem_cons_self, hrows.exists_dependent hmem⟩
    · obtain ⟨o, ho, hdep⟩ := ih hmem
      exact ⟨o, List.mem_cons_of_mem _ ho, hdep⟩

theorem exists_of_mem_below (h : List.Forall₂ (Origin.Yields version) origins groups)
    {next : Origin} (hnext : next ∈ below origins groups) :
    ∃ origin ∈ origins, ∃ row, next = origin.follow row ∧
      ∃ dependent ∈ origin.snapshot.dependents origin.changed,
        origin.RowFor version dependent row := by
  rcases List.mem_flatMap.1 hnext with ⟨⟨origin, rows⟩, hzip, hmem⟩
  rcases List.mem_map.1 hmem with ⟨row, hrow, rfl⟩
  have hyields : origin.Yields version rows := List.forall₂_zip h hzip
  exact ⟨origin, (List.of_mem_zip hzip).1, row, rfl, hyields.exists_dependent hrow⟩

/-! ## How much is written -/

/-- The rows that come from an origin are at most as many as the cells of its snapshot. -/
theorem Origin.Yields.length_le {rows : List Cell} (h : origin.Yields version rows) :
    rows.length ≤ origin.snapshot.length := by
  rw [← h.length_eq]
  exact List.length_filter_le _ _

theorem length_flatten_le {size : Nat} (h : List.Forall₂ (Origin.Yields version) origins groups)
    (hsize : ∀ o ∈ origins, o.snapshot.length ≤ size) :
    groups.flatten.length ≤ origins.length * size := by
  induction h with
  | nil => exact Nat.zero_le _
  | @cons origin rows origins groups hrows _ ih =>
    have hrest := ih fun o ho => hsize o (List.mem_cons_of_mem _ ho)
    have hfirst := Nat.le_trans hrows.length_le (hsize origin List.mem_cons_self)
    rw [List.flatten_cons, List.length_append, List.length_cons, Nat.succ_mul]
    omega

/-- Each row of a level is the origin of the next ones. -/
theorem length_below (h : List.Forall₂ (Origin.Yields version) origins groups) :
    (below origins groups).length = groups.flatten.length := by
  induction h with
  | nil => rfl
  | @cons origin rows origins groups _ _ ih =>
    rw [below_cons, List.length_append, List.length_map, ih, List.flatten_cons, List.length_append]

/-- Rows stand where cells stood, so snapshots do not grow on the way down. -/
theorem length_le_of_mem_below {size : Nat}
    (h : List.Forall₂ (Origin.Yields version) origins groups)
    (hsize : ∀ o ∈ origins, o.snapshot.length ≤ size) :
    ∀ next ∈ below origins groups, next.snapshot.length ≤ size := by
  intro next hnext
  obtain ⟨origin, horigin, row, rfl, dependent, hdep, hfor⟩ := exists_of_mem_below h hnext
  have hmem : dependent ∈ origin.snapshot := (Snapshot.mem_dependents.1 hdep).1
  exact Nat.le_trans (Snapshot.length_replace_le hmem hfor.slot_eq.symm) (hsize origin horigin)

/-- Levels come to an end, whatever circles the cells read each other in: the number of rows is
bounded by the number of cells and that of the levels. -/
theorem Levels.length_add_le {size depth : Nat} {origins : List Origin} {levels : List (List Cell)}
    (h : Levels version depth origins levels) (hsize : ∀ o ∈ origins, o.snapshot.length ≤ size) :
    levels.flatten.length + origins.length ≤ origins.length * Pending.costOf size depth := by
  induction h with
  | nil => simp [Pending.costOf]
  | @cons depth origins groups levels hgroups _ ih =>
    have hle := length_flatten_le hgroups hsize
    have hmore := ih (length_le_of_mem_below hgroups hsize)
    rw [length_below hgroups] at hmore
    calc (groups.flatten :: levels).flatten.length + origins.length
        = levels.flatten.length + groups.flatten.length + origins.length := by
          rw [List.flatten_cons, List.length_append, Nat.add_comm groups.flatten.length]
      _ ≤ groups.flatten.length * Pending.costOf size depth + origins.length :=
          Nat.add_le_add_right hmore _
      _ ≤ origins.length * size * Pending.costOf size depth + origins.length :=
          Nat.add_le_add_right (Nat.mul_le_mul_right _ hle) _
      _ = origins.length * Pending.costOf size (depth + 1) := by
          rw [Pending.costOf, Nat.mul_add, Nat.mul_one, Nat.mul_assoc, Nat.add_comm]

/-! ## The cascade -/

theorem propagate_of_descend {depth : Nat} {changed : Slot} {snapshot : Snapshot}
    {levels : List (List Cell)}
    (h : descend version depth [⟨changed, snapshot⟩] store = .ok levels later) :
    propagate depth version changed snapshot store = .ok levels.flatten later := by
  rw [propagate_eq_descend]
  simp only [Functor.map, EStateM.map, h]

/-- A recursion over fewer levels has the first ones of these levels. -/
theorem descend_take {depth : Nat} {origins : List Origin} {levels : List (List Cell)} {later : σ}
    (h : descend version depth origins store = .ok levels later) (hn : n ≤ depth) :
    ∃ moment, descend version n origins store = .ok (levels.take n) moment := by
  induction depth generalizing n origins levels store with
  | zero =>
    rw [Nat.le_zero.1 hn]
    exact ⟨store, rfl⟩
  | succ depth ih =>
    cases n with
    | zero => exact ⟨store, rfl⟩
    | succ n =>
      simp only [descend, bind, EStateM.bind, pure, EStateM.pure] at h ⊢
      cases hgroups : origins.mapM (refreshFrom version) store with
      | error cause mid =>
        rw [hgroups] at h
        cases h
      | ok groups mid =>
        rw [hgroups] at h
        dsimp only at h ⊢
        cases hlevels : descend version depth (below origins groups) mid with
        | error cause later =>
          rw [hlevels] at h
          cases h
        | ok levels last =>
          rw [hlevels] at h
          cases h
          obtain ⟨moment, hmoment⟩ := ih hlevels (Nat.le_of_succ_le_succ hn)
          exact ⟨moment, by rw [hmoment, List.take_succ_cons]⟩

/-- The store takes every row that a recursion comes to, once it has taken those before it. -/
def Takes (store : σ) (version depth : Nat) (origin : Origin) : Prop :=
  ∀ levels written row rest mid, Levels version depth [origin] levels →
    levels.flatten = written ++ row :: rest → Reached store mid written →
      ∃ id later, CellStore.insert { row with id := 0 } mid = .ok id later

/-- Where every row is taken, the recursion ends with the rows of all levels. -/
theorem descend_of_takes {depth : Nat} (hstands : origin.Stands)
    (htakes : Takes store version depth origin) :
    ∃ levels later, descend version depth [origin] store = .ok levels later ∧
      Levels version depth [origin] levels ∧ Reached store later levels.flatten := by
  have hwrites : Writes store (Levels version depth [origin]) List.flatten
      (descend version depth [origin] store) :=
    writes_descend depth (fun o ho => List.mem_singleton.1 ho ▸ hstands) store
  cases hdescend : descend version depth [origin] store with
  | ok levels later =>
    rw [hdescend] at hwrites
    exact ⟨levels, later, rfl, hwrites⟩
  | error cause later =>
    rw [hdescend] at hwrites
    rcases hwrites with
      ⟨levels, written, row, rest, mid, complaint, hlevels, hrows, hwritten, hrefused, -⟩
    obtain ⟨id, moment, htaken⟩ := htakes levels written row rest mid hlevels hrows hwritten
    rw [hrefused] at htaken
    cases htaken

/-- Over a store that takes its rows, a cascade ends with the rows of its levels in their order,
also where cells read each other in a circle. With fewer levels it writes the first ones of these
rows. -/
theorem propagate_levelByLevel {depth : Nat} {changed : Slot} {snapshot : Snapshot}
    (hstands : ∃ cell ∈ snapshot, cell.slot = changed)
    (htakes : Takes store version depth ⟨changed, snapshot⟩) :
    ∃ levels later, propagate depth version changed snapshot store = .ok levels.flatten later ∧
      Levels version depth [⟨changed, snapshot⟩] levels ∧
      Reached store later levels.flatten ∧
      levels.flatten.length < Pending.costOf snapshot.length depth ∧
      ∀ n ≤ depth, ∃ fewer moment, propagate n version changed snapshot store = .ok fewer moment ∧
        fewer = (levels.take n).flatten ∧ fewer <+: levels.flatten := by
  have hstands : Origin.Stands ⟨changed, snapshot⟩ := hstands
  obtain ⟨levels, later, hdescend, hlevels, hreached⟩ := descend_of_takes hstands htakes
  have hbound : levels.flatten.length + 1 ≤ 1 * Pending.costOf snapshot.length depth :=
    hlevels.length_add_le fun _ ho => List.mem_singleton.1 ho ▸ Nat.le_refl _
  rw [Nat.one_mul] at hbound
  refine ⟨levels, later, propagate_of_descend hdescend, hlevels, hreached, hbound, ?_⟩
  intro n hn
  obtain ⟨moment, hmoment⟩ := descend_take hdescend hn
  have hprefix : (levels.take n).flatten ++ (levels.drop n).flatten = levels.flatten := by
    rw [← List.flatten_append, List.take_append_drop]
  exact ⟨_, moment, propagate_of_descend hmoment, rfl, _, hprefix⟩

/-- Two cells that read each other. -/
def circle : Snapshot :=
  [⟨1, "1", ⟨0, 0⟩, "=B1", "0", 1⟩, ⟨2, "1", ⟨1, 0⟩, "=A1", "0", 1⟩]

theorem propagate_levelByLevel_circle :
    (∃ cell ∈ circle, cell.slot = ⟨0, 0⟩) ∧
      Takes ({ lastId := 2 } : LogStore) 5 3 ⟨⟨0, 0⟩, circle⟩ ∧
      ∃ levels later, propagate 3 5 ⟨0, 0⟩ circle ({ lastId := 2 } : LogStore) =
          .ok levels.flatten later ∧
        Levels 5 3 [⟨⟨0, 0⟩, circle⟩] levels ∧
        Reached ({ lastId := 2 } : LogStore) later levels.flatten ∧
        levels.flatten.length < Pending.costOf circle.length 3 ∧
        ∀ n ≤ 3, ∃ fewer moment, propagate n 5 ⟨0, 0⟩ circle ({ lastId := 2 } : LogStore) =
            .ok fewer moment ∧
          fewer = (levels.take n).flatten ∧ fewer <+: levels.flatten := by
  have hstands : ∃ cell ∈ circle, cell.slot = ⟨0, 0⟩ := ⟨_, List.mem_cons_self, rfl⟩
  have htakes : Takes ({ lastId := 2 } : LogStore) 5 3 ⟨⟨0, 0⟩, circle⟩ := by
    -- a log takes every row
    intro levels written row rest mid _ _ _
    exact ⟨_, _, rfl⟩
  exact ⟨hstands, htakes, propagate_levelByLevel hstands htakes⟩

example : ∃ later, descend 5 3 [⟨⟨0, 0⟩, circle⟩] ({ lastId := 2 } : LogStore) =
    .ok [[⟨3, "1", ⟨1, 0⟩, "=A1", "0", 5⟩], [⟨4, "1", ⟨0, 0⟩, "=B1", "0", 5⟩],
      [⟨5, "1", ⟨1, 0⟩, "=A1", "0", 5⟩]] later := by
  refine ⟨⟨[("1", [⟨3, "1", ⟨1, 0⟩, "=A1", "0", 5⟩, ⟨4, "1", ⟨0, 0⟩, "=B1", "0", 5⟩,
    ⟨5, "1", ⟨1, 0⟩, "=A1", "0", 5⟩])], 5⟩, ?_⟩
  cbv

end SheetLedger.Cascade
