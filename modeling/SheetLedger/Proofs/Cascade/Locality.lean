import Mathlib.Data.List.Forall2
import SheetLedger.Proofs.Cascade.Cone

/-!
# What settles a cascade

The values that a cascade writes are settled by what is seen at the slots that its dependents stand
at and read. Two snapshots *agree on* some slots if the same cells are seen there, in the same
order, whatever their ids and versions are and whatever stands between them (`Snapshot.AgreeOn`). If
everything that two cascades reach and read lies among these slots, they write rows in which the
same is seen, one after the other (`Cascade.map_seen_rows`).
-/

namespace SheetLedger

variable {p : Slot → Bool} {a b : Snapshot}

/-! ## Snapshots that agree -/

/-- At the slots with a property the same is seen in two snapshots, in the same order. -/
def Snapshot.AgreeOn (p : Slot → Bool) (a b : Snapshot) : Prop :=
  (List.filter (p ·.slot) a).map Cell.seen = (List.filter (p ·.slot) b).map Cell.seen

namespace Snapshot.AgreeOn

/-- Orderly snapshots that hold the same at some slots agree on them. -/
theorem of_find?_eq (ha : a.Orderly) (hb : b.Orderly)
    (h : ∀ x, p x = true → a.find? x = b.find? x) : AgreeOn p a b :=
  congrArg (List.map Cell.seen) (filter_eq_of_find?_eq ha hb p h)

variable (h : AgreeOn p a b)

include h

/-- Of cells at slots on which two snapshots agree, the same ones can be picked by what is seen. -/
theorem map_seen_filter {q : Slot × String × String → Bool}
    (ha : ∀ cell ∈ a, q cell.seen = true → p cell.slot = true)
    (hb : ∀ cell ∈ b, q cell.seen = true → p cell.slot = true) :
    (List.filter (q ·.seen) a).map Cell.seen = (List.filter (q ·.seen) b).map Cell.seen := by
  have hpick : ∀ s : Snapshot, (∀ cell ∈ s, q cell.seen = true → p cell.slot = true) →
      (List.filter (q ·.seen) s).map Cell.seen =
        ((List.filter (p ·.slot) s).map Cell.seen).filter q := by
    intro s hs
    rw [List.filter_map, List.filter_filter]
    refine congrArg _ (List.filter_congr fun cell hcell => ?_)
    cases hq : q cell.seen with
    | false => simp [hq]
    | true => simp [hq, hs cell hcell hq]
  rw [hpick a ha, hpick b hb, h]

/-- They agree once rows in which the same is seen have been swapped in. -/
theorem replace {row other : Cell} (hseen : row.seen = other.seen) :
    AgreeOn p (a.replace row) (b.replace other) := by
  rcases Cell.seen_eq_iff.1 hseen with ⟨hslot, -, -⟩
  have hrest : ∀ s : Snapshot, (List.filter (p ·.slot) (s.without row.slot)).map Cell.seen =
      ((List.filter (p ·.slot) s).map Cell.seen).filter (·.1 ≠ row.slot) := by
    intro s
    rw [List.filter_map, Snapshot.without, List.filter_filter, List.filter_filter]
    refine congrArg _ (List.filter_congr fun cell _ => ?_)
    exact Bool.and_comm _ _
  unfold AgreeOn Snapshot.replace
  rw [List.filter_append, List.filter_append, List.map_append, List.map_append, ← hslot, hrest a,
    hrest b, h]
  by_cases hp : p row.slot = true
  · simp [hp, ← hslot, hseen]
  · simp [hp, ← hslot]

/-- A formula that depends on slots on which two snapshots agree has the same value in both. -/
theorem evaluate_eq {formula : Formula}
    (hreads : ∀ y, formula.dependsOn y = true → p y = true) :
    formula.evaluate a = formula.evaluate b :=
  Formula.evaluate_eq_of_seen_eq (h.map_seen_filter (q := fun v => formula.dependsOn v.1)
    (fun _ _ => hreads _) fun _ _ => hreads _)

/-- The same dependents are found where all of them stand at slots on which the snapshots agree. -/
theorem map_seen_dependents {changed : Slot}
    (ha : ∀ d ∈ a.dependents changed, p d.slot = true)
    (hb : ∀ d ∈ b.dependents changed, p d.slot = true) :
    (a.dependents changed).map Cell.seen = (b.dependents changed).map Cell.seen :=
  h.map_seen_filter
    (q := fun v => v.1 ≠ changed && (Formula.classify v.2.1).dependsOn changed)
    (fun cell hcell hq => ha cell (List.mem_filter.2 ⟨hcell, hq⟩))
    fun cell hcell hq => hb cell (List.mem_filter.2 ⟨hcell, hq⟩)

/-- What is seen of a dependent that is computed anew, from either snapshot. -/
theorem seen_renewed {d e : Cell} (hseen : d.seen = e.seen)
    (hreads : ∀ y, d.formula.dependsOn y = true → p y = true) (id version id' version' : Nat) :
    (d.renewed id version a).seen = (e.renewed id' version' b).seen := by
  rcases Cell.seen_eq_iff.1 hseen with ⟨hslot, hraw, -⟩
  have hformula : d.formula = e.formula := congrArg Formula.classify hraw
  have hvalue : d.formula.value a = e.formula.value b := by
    rw [Formula.value, Formula.value, ← hformula,
      Formula.compute_eq_of_evaluate_eq (h.evaluate_eq hreads)]
  exact Cell.seen_eq_iff.2 ⟨hslot, hraw, hvalue⟩

end Snapshot.AgreeOn

/-! ## Work that agrees -/

/-- Two entries of queues are for the same slot, from snapshots that agree. -/
structure Pending.AgreeOn (p : Slot → Bool) (entry other : Pending) : Prop where
  changed : entry.changed = other.changed
  snapshot : entry.snapshot.AgreeOn p other.snapshot

/-- The dependents of an entry have a property, and so has everything that they read. -/
def Pending.Inside (p : Slot → Bool) (entry : Pending) : Prop :=
  ∀ d ∈ entry.snapshot.dependents entry.changed,
    p d.slot = true ∧ ∀ y, d.formula.dependsOn y = true → p y = true

/-- Two visits are made for entries that agree, and the same is seen in their rows. -/
structure Visit.AgreeOn (p : Slot → Bool) (visit other : Visit) : Prop where
  entry : visit.entry.AgreeOn p other.entry
  seen : visit.row.seen = other.row.seen

theorem Visit.AgreeOn.follow {visit other : Visit} (h : visit.AgreeOn p other) :
    visit.follow.AgreeOn p other.follow where
  changed := (Cell.seen_eq_iff.1 h.seen).1
  snapshot := h.entry.snapshot.replace h.seen

namespace Cascade

variable {version version' lastId lastId' depth : Nat} {changed : Slot} {sheet sheet' : String}
  {entry other : Pending} {base : Snapshot}

theorem forall₂_visitAll (hentry : entry.AgreeOn p other) {ds es : List Cell}
    (h : ds.map Cell.seen = es.map Cell.seen)
    (hreads : ∀ d ∈ ds, ∀ y, d.formula.dependsOn y = true → p y = true) :
    List.Forall₂ (Visit.AgreeOn p) (visitAll version entry lastId ds)
      (visitAll version' other lastId' es) := by
  induction ds generalizing es lastId lastId' with
  | nil =>
    rw [List.map_nil, eq_comm, List.map_eq_nil_iff] at h
    rw [h]
    exact .nil
  | cons d rest ih =>
    cases es with
    | nil => cases h
    | cons e more =>
      rcases List.cons_eq_cons.1 h with ⟨hseen, hrest⟩
      have hrow := hentry.snapshot.seen_renewed hseen (hreads d List.mem_cons_self)
        (lastId + 1) version (lastId' + 1) version'
      exact .cons ⟨hentry, hrow⟩ (ih hrest fun d hd => hreads d (List.mem_cons_of_mem _ hd))

theorem forall₂_sweep {entries others : List Pending}
    (h : List.Forall₂ (Pending.AgreeOn p) entries others)
    (hin : ∀ e ∈ entries, e.Inside p) (hin' : ∀ e ∈ others, e.Inside p) :
    List.Forall₂ (Visit.AgreeOn p) (sweep version lastId entries)
      (sweep version' lastId' others) := by
  induction h generalizing lastId lastId' with
  | nil => exact .nil
  | @cons entry other rest more hentry _ ih =>
    have hown := hin entry List.mem_cons_self
    have hown' := hin' other List.mem_cons_self
    -- the same dependents are found, because all of them stand where the snapshots agree
    have hdeps : (entry.snapshot.dependents entry.changed).map Cell.seen =
        (other.snapshot.dependents other.changed).map Cell.seen := by
      rw [← hentry.changed]
      exact hentry.snapshot.map_seen_dependents (fun d hd => (hown d hd).1)
        fun d hd => (hown' d (hentry.changed ▸ hd)).1
    exact List.rel_append (forall₂_visitAll hentry hdeps fun d hd => (hown d hd).2)
      (ih (fun e he => hin e (List.mem_cons_of_mem _ he))
        fun e he => hin' e (List.mem_cons_of_mem _ he))

/-- Cascades that start from work that agrees, and that stay inside, write rows in which the same is
seen. -/
theorem map_seen_rows_of_inside {frontier others : Frontier}
    (h : List.Forall₂ (Pending.AgreeOn p) frontier.entries others.entries)
    (hin : ∀ k < depth, ∀ e ∈ ((Frontier.next version)^[k] frontier).entries, e.Inside p)
    (hin' : ∀ k < depth, ∀ e ∈ ((Frontier.next version')^[k] others).entries, e.Inside p) :
    (rows version frontier depth).map Cell.seen = (rows version' others depth).map Cell.seen := by
  induction depth generalizing frontier others with
  | zero => rfl
  | succ depth ih =>
    have hsweep : List.Forall₂ (Visit.AgreeOn p)
        (sweep version frontier.lastId frontier.entries)
        (sweep version' others.lastId others.entries) :=
      forall₂_sweep h (hin 0 (Nat.succ_pos _)) (hin' 0 (Nat.succ_pos _))
    have hnext : List.Forall₂ (Pending.AgreeOn p) (frontier.next version).entries
        (others.next version').entries := by
      refine List.forall₂_map_left_iff.2 (List.forall₂_map_right_iff.2 ?_)
      exact hsweep.imp fun _ _ => Visit.AgreeOn.follow
    have hseen : (sweep version frontier.lastId frontier.entries).map (·.row.seen) =
        (sweep version' others.lastId others.entries).map (·.row.seen) := by
      rw [← List.forall₂_eq_eq_eq]
      refine List.forall₂_map_left_iff.2 (List.forall₂_map_right_iff.2 ?_)
      exact hsweep.imp fun _ _ => Visit.AgreeOn.seen
    rw [rows_succ, rows_succ, List.map_append, List.map_append, List.map_map, List.map_map]
    refine congrArg₂ _ hseen (ih hnext ?_ ?_)
    · intro k hk
      exact hin (k + 1) (Nat.succ_lt_succ hk)
    · intro k hk
      exact hin' (k + 1) (Nat.succ_lt_succ hk)

/-- A cascade stays inside if the slots that it reaches do, and what they read. -/
theorem inside_of_reachesWithin (horderly : base.Orderly)
    (hready : (start depth lastId changed base).Ready base sheet)
    (hcone : ∀ x, base.ReachesWithin depth changed x →
      p x = true ∧ ∀ y, base.Reads x y → p y = true) :
    ∀ k < depth, ∀ e ∈ ((Frontier.next version)^[k] (start depth lastId changed base)).entries,
      e.Inside p := by
  intro k hk e he d hd
  have hentry := hready.iterate version k e he
  have hfeeds : base.Feeds e.changed d.slot :=
    (feeds_iff_of_ready horderly hentry).1 (Snapshot.feeds_of_mem_dependents hd)
  obtain ⟨path, hlength, hchain⟩ := (exists_mem_iterate_iff horderly hready
    (fun e he => by rw [List.mem_singleton.1 he]) (List.cons_ne_nil _ _) k).1 ⟨e, he, rfl⟩
  have hreach : base.ReachesWithin depth changed d.slot := by
    refine ⟨path ++ [d.slot], by simp, ?_, hchain.snoc hfeeds⟩
    rw [List.length_append, List.length_singleton, hlength]
    exact hk
  refine ⟨(hcone d.slot hreach).1, fun y hy => (hcone d.slot hreach).2 y ?_⟩
  rw [hentry.texts.reads_iff horderly hentry.orderly]
  exact ⟨d, (Snapshot.mem_dependents.1 hd).1, rfl, hy⟩

/-- Cascades of one depth for the same slot, from snapshots that agree on all that the two reach and
read, write rows in which the same is seen. -/
theorem map_seen_rows (hagree : Snapshot.AgreeOn p a b) (ha : a.Orderly) (hb : b.Orderly)
    (hready : (start depth lastId changed a).Ready a sheet)
    (hready' : (start depth lastId' changed b).Ready b sheet')
    (hcone : ∀ x, a.ReachesWithin depth changed x → p x = true ∧ ∀ y, a.Reads x y → p y = true)
    (hcone' : ∀ x, b.ReachesWithin depth changed x →
      p x = true ∧ ∀ y, b.Reads x y → p y = true) :
    (rows version (start depth lastId changed a) depth).map Cell.seen =
      (rows version' (start depth lastId' changed b) depth).map Cell.seen :=
  map_seen_rows_of_inside (.cons ⟨rfl, hagree⟩ .nil) (inside_of_reachesWithin ha hready hcone)
    (inside_of_reachesWithin hb hready' hcone')

end Cascade

end SheetLedger
