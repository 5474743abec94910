import Mathlib.Data.List.Lex
import Mathlib.Logic.Relation
import SheetLedger.Proofs.Reading

/-!
# Chains of dependents

The *reference relation* of a snapshot says which slots the cell of a slot reads. A slot *feeds*
every other slot that reads it, and a *chain* goes from slot to slot in that direction. Swapping
computed texts does not change the relation (`SameTexts.feeds_iff`): it is made of raw texts only.
-/

namespace SheetLedger.Snapshot

/-! ## The reference relation -/

/-- The cell at `reader` has a formula that depends on `slot`. -/
def Reads (snapshot : Snapshot) (reader slot : Slot) : Prop :=
  ∃ cell ∈ snapshot, cell.slot = reader ∧ cell.formula.dependsOn slot = true

/-- The reference relation has no cycle; a cell that reads itself is one. -/
def Acyclic (snapshot : Snapshot) : Prop :=
  ∀ slot, ¬ Relation.TransGen snapshot.Reads slot slot

/-- The cell at `reader` is another cell than the one at `slot` and reads it. -/
def Feeds (snapshot : Snapshot) (slot reader : Slot) : Prop :=
  reader ≠ slot ∧ snapshot.Reads reader slot

theorem feeds_of_mem_dependents {snapshot : Snapshot} {slot : Slot} {cell : Cell}
    (h : cell ∈ snapshot.dependents slot) : snapshot.Feeds slot cell.slot := by
  rcases mem_dependents.1 h with ⟨hmem, hne, hdep⟩
  exact ⟨hne, cell, hmem, rfl, hdep⟩

theorem feeds_iff_exists_dependent {snapshot : Snapshot} {slot reader : Slot} :
    snapshot.Feeds slot reader ↔ ∃ cell ∈ snapshot.dependents slot, cell.slot = reader := by
  constructor
  · rintro ⟨hne, cell, hmem, rfl, hdep⟩
    exact ⟨cell, mem_dependents.2 ⟨hmem, hne, hdep⟩, rfl⟩
  · rintro ⟨cell, hcell, rfl⟩
    exact feeds_of_mem_dependents hcell

theorem Orderly.reads_iff {snapshot : Snapshot} (h : snapshot.Orderly) {reader slot : Slot} :
    snapshot.Reads reader slot ↔
      ∃ raw, (snapshot.find? reader).map (·.raw) = some raw ∧
        (Formula.classify raw).dependsOn slot = true := by
  simp only [Option.map_eq_some_iff, h.find?_eq_some_iff]
  constructor
  · rintro ⟨cell, hmem, hslot, hdep⟩
    exact ⟨cell.raw, ⟨cell, ⟨hmem, hslot⟩, rfl⟩, hdep⟩
  · rintro ⟨_, ⟨cell, ⟨hmem, hslot⟩, rfl⟩, hdep⟩
    exact ⟨cell, hmem, hslot, hdep⟩

/-! ## Snapshots with the same raw texts -/

/-- Two snapshots have cells at the same slots, with the same raw texts. -/
def SameTexts (a b : Snapshot) : Prop :=
  ∀ slot, (a.find? slot).map (·.raw) = (b.find? slot).map (·.raw)

theorem SameTexts.refl (a : Snapshot) : a.SameTexts a := fun _ => rfl

/-- A row with the raw text of the cell whose place it takes changes no raw text. -/
theorem SameTexts.replace {a b : Snapshot} {row cell : Cell} (h : a.SameTexts b)
    (hfind : b.find? row.slot = some cell) (hraw : cell.raw = row.raw) :
    a.SameTexts (b.replace row) := by
  intro slot
  rw [h slot, find?_replace]
  by_cases hslot : row.slot = slot
  · rw [if_pos hslot, ← hslot, hfind]
    exact congrArg some hraw
  · rw [if_neg hslot]

theorem SameTexts.reads_iff {a b : Snapshot} (h : a.SameTexts b) (ha : a.Orderly)
    (hb : b.Orderly) {reader slot : Slot} : a.Reads reader slot ↔ b.Reads reader slot := by
  rw [ha.reads_iff, hb.reads_iff, h reader]

theorem SameTexts.feeds_iff {a b : Snapshot} (h : a.SameTexts b) (ha : a.Orderly)
    (hb : b.Orderly) {slot reader : Slot} : a.Feeds slot reader ↔ b.Feeds slot reader := by
  unfold Feeds
  rw [h.reads_iff ha hb]

/-- Every cell of a snapshot has one in the other at its slot, with its raw text. -/
def TextsIn (a b : Snapshot) : Prop :=
  ∀ cell ∈ a, ∃ other ∈ b, other.slot = cell.slot ∧ other.raw = cell.raw

theorem SameTexts.textsIn {a b : Snapshot} (h : a.SameTexts b) (hb : b.Orderly) :
    b.TextsIn a := by
  intro cell hcell
  have htexts := h cell.slot
  rw [hb.find?_eq_some_iff.2 ⟨hcell, rfl⟩] at htexts
  rcases Option.map_eq_some_iff.1 htexts with ⟨other, hother, hraw⟩
  exact ⟨other, mem_of_find? hother, slot_of_find? hother, hraw⟩

theorem TextsIn.trans {a b c : Snapshot} (h : a.TextsIn b) (h' : b.TextsIn c) : a.TextsIn c := by
  intro cell hcell
  rcases h cell hcell with ⟨middle, hmiddle, hslot, hraw⟩
  rcases h' middle hmiddle with ⟨other, hother, hslot', hraw'⟩
  exact ⟨other, hother, hslot'.trans hslot, hraw'.trans hraw⟩

theorem TextsIn.replace {a b : Snapshot} (h : a.TextsIn b) {row other : Cell} (hother : other ∈ b)
    (hslot : other.slot = row.slot) (hraw : other.raw = row.raw) : (a.replace row).TextsIn b := by
  intro cell hcell
  rcases mem_replace.1 hcell with ⟨hold, -⟩ | rfl
  · exact h cell hold
  · exact ⟨other, hother, hslot, hraw⟩

theorem TextsIn.reads {a b : Snapshot} (h : a.TextsIn b) {reader slot : Slot}
    (hreads : a.Reads reader slot) : b.Reads reader slot := by
  rcases hreads with ⟨cell, hcell, rfl, hdep⟩
  rcases h cell hcell with ⟨other, hother, hslot, hraw⟩
  have hformula : other.formula = cell.formula := congrArg Formula.classify hraw
  exact ⟨other, hother, hslot, hformula ▸ hdep⟩

/-! ## Chains -/

/-- A chain of dependents: starting at `first`, each slot of the list feeds the next one. -/
inductive Chain (snapshot : Snapshot) (first : Slot) : List Slot → Slot → Prop
  /-- The chain that has not left its first slot. -/
  | nil : Chain snapshot first [] first
  /-- A chain goes on to a slot that its last one feeds. -/
  | snoc {path : List Slot} {last next : Slot} :
      Chain snapshot first path last → snapshot.Feeds last next →
        Chain snapshot first (path ++ [next]) next

/-- A slot that a chain of at least one step leads to. -/
def Reaches (snapshot : Snapshot) (first last : Slot) : Prop :=
  ∃ path, path ≠ [] ∧ snapshot.Chain first path last

/-- A slot that a chain of at least one and at most so many steps leads to. -/
def ReachesWithin (snapshot : Snapshot) (depth : Nat) (first last : Slot) : Prop :=
  ∃ path, path ≠ [] ∧ path.length ≤ depth ∧ snapshot.Chain first path last

/-- A chain to a slot that no other one is longer than. -/
structure Longest (snapshot : Snapshot) (first : Slot) (path : List Slot) (last : Slot) : Prop where
  chain : snapshot.Chain first path last
  longest : ∀ other, snapshot.Chain first other last → other.length ≤ path.length

/-- The id of the cell at a slot, zero if there is none. -/
def idAt (snapshot : Snapshot) (slot : Slot) : Nat :=
  ((snapshot.find? slot).map (·.id)).getD 0

/-- Where two paths first differ, the first one leads to a cell with a lower id. -/
def Precedes (ids : Snapshot) (a b : List Slot) : Prop :=
  List.Lex (fun x y => ids.idAt x < ids.idAt y) a b

/-- Of the longest chains to a slot the last one, by the ids in a snapshot. -/
structure LastLongest (snapshot ids : Snapshot) (first : Slot) (path : List Slot) (last : Slot) :
    Prop extends snapshot.Longest first path last where
  latest : ∀ other, snapshot.Chain first other last → other.length = path.length →
    other = path ∨ ids.Precedes other path

variable {snapshot : Snapshot} {first middle last : Slot} {path rest : List Slot}

theorem chain_nil_iff : snapshot.Chain first [] last ↔ last = first := by
  constructor
  -- the empty path is no path of the second constructor, which ends in a slot
  · generalize hp : ([] : List Slot) = path
    intro h
    cases h with
    | nil => rfl
    | snoc => simp at hp
  · rintro rfl
    exact .nil

theorem chain_concat_iff {next : Slot} :
    snapshot.Chain first (path ++ [next]) last ↔
      last = next ∧ ∃ middle, snapshot.Chain first path middle ∧ snapshot.Feeds middle next := by
  constructor
  · generalize hp : path ++ [next] = whole
    intro h
    cases h with
    | nil => simp at hp
    | snoc hprev hfeeds =>
      rcases List.append_inj' hp rfl with ⟨rfl, hnext⟩
      cases hnext
      exact ⟨rfl, _, hprev, hfeeds⟩
  · rintro ⟨rfl, middle, hprev, hfeeds⟩
    exact .snoc hprev hfeeds

theorem Chain.append (h : snapshot.Chain first path middle)
    (hrest : snapshot.Chain middle rest last) : snapshot.Chain first (path ++ rest) last := by
  induction hrest with
  | nil => simpa using h
  | snoc _ hfeeds ih =>
    rw [← List.append_assoc]
    exact .snoc ih hfeeds

theorem Chain.single (h : snapshot.Feeds first last) : snapshot.Chain first [last] last := by
  show snapshot.Chain first ([] ++ [last]) last
  exact .snoc .nil h

theorem Chain.mono {other : Snapshot} (h : snapshot.Chain first path last)
    (hfeeds : ∀ slot reader, snapshot.Feeds slot reader → other.Feeds slot reader) :
    other.Chain first path last := by
  induction h with
  | nil => exact .nil
  | snoc _ hstep ih => exact .snoc ih (hfeeds _ _ hstep)

theorem TextsIn.reachesWithin {other : Snapshot} {depth : Nat} (h : snapshot.TextsIn other)
    (hreach : snapshot.ReachesWithin depth first last) : other.ReachesWithin depth first last := by
  rcases hreach with ⟨path, hne, hlength, hchain⟩
  exact ⟨path, hne, hlength, hchain.mono fun _ _ hfeeds => ⟨hfeeds.1, h.reads hfeeds.2⟩⟩

theorem SameTexts.chain_iff {other : Snapshot} (h : snapshot.SameTexts other)
    (hs : snapshot.Orderly) (ho : other.Orderly) :
    snapshot.Chain first path last ↔ other.Chain first path last :=
  ⟨fun hc => hc.mono fun _ _ => (h.feeds_iff hs ho).1,
    fun hc => hc.mono fun _ _ => (h.feeds_iff hs ho).2⟩

theorem Chain.getLast_eq (h : snapshot.Chain first path last) (hne : path ≠ []) :
    path.getLast hne = last := by
  cases h with
  | nil => exact absurd rfl hne
  | snoc => simp

/-- Where a chain leads, the cell reads the first slot, directly or through others. -/
theorem Reaches.transGen (h : snapshot.Reaches first last) :
    Relation.TransGen snapshot.Reads last first := by
  rcases h with ⟨path, hne, hchain⟩
  -- the chain grows at its end, where the reading relation begins: each step goes in front
  induction hchain with
  | nil => exact absurd rfl hne
  | @snoc path middle next hprev hfeeds ih =>
    by_cases hp : path = []
    · subst hp
      rw [chain_nil_iff] at hprev
      exact .single (hprev ▸ hfeeds.2)
    · exact .head hfeeds.2 (ih hp)

theorem Acyclic.not_reaches_self (h : snapshot.Acyclic) (slot : Slot) :
    ¬ snapshot.Reaches slot slot :=
  fun hreach => h slot hreach.transGen

theorem Reaches.of_feeds (h : snapshot.Feeds first last) : snapshot.Reaches first last :=
  ⟨[last], List.cons_ne_nil _ _, .single h⟩

theorem Reaches.trans (h : snapshot.Reaches first middle) (hrest : snapshot.Reaches middle last) :
    snapshot.Reaches first last := by
  rcases h with ⟨path, hne, hchain⟩
  rcases hrest with ⟨rest, -, hchain'⟩
  exact ⟨path ++ rest, by simp [hne], hchain.append hchain'⟩

/-- A slot that is reached is fed by the first one, or by one that is reached itself. -/
theorem Reaches.exists_feeds (h : snapshot.Reaches first last) :
    ∃ middle, (middle = first ∨ snapshot.Reaches first middle) ∧ snapshot.Feeds middle last := by
  rcases h with ⟨path, hne, hchain⟩
  cases hchain with
  | nil => exact absurd rfl hne
  | @snoc before middle _ hbefore hfeeds =>
    refine ⟨middle, ?_, hfeeds⟩
    by_cases hnil : before = []
    · subst hnil
      exact Or.inl (chain_nil_iff.1 hbefore)
    · exact Or.inr ⟨before, hnil, hbefore⟩

/-- A longest chain is one to the slot before its last, and goes on from there. -/
theorem Longest.exists_before (h : snapshot.Longest first (path ++ [last]) last) :
    ∃ middle, snapshot.Longest first path middle ∧ snapshot.Feeds middle last := by
  rcases chain_concat_iff.1 h.chain with ⟨-, middle, hbefore, hfeeds⟩
  refine ⟨middle, ⟨hbefore, fun other hother => ?_⟩, hfeeds⟩
  -- a longer chain to `middle` would go on to a longer one to `last`
  have hle := h.longest _ (hother.snoc hfeeds)
  simpa using hle

/-- From every slot on a chain a chain goes on to its end. -/
theorem Chain.reaches_of_mem (h : snapshot.Chain first path last) {x : Slot} (hx : x ∈ path) :
    x = last ∨ snapshot.Reaches x last := by
  induction h with
  | nil => cases hx
  | @snoc before middle next hbefore hfeeds ih =>
    rcases List.mem_append.1 hx with hmem | hmem
    · rcases ih hmem with rfl | hreach
      · exact Or.inr (.of_feeds hfeeds)
      · exact Or.inr (hreach.trans (.of_feeds hfeeds))
    · exact Or.inl (List.mem_singleton.1 hmem)

/-! ## The order of paths -/

theorem Precedes.asymm {ids : Snapshot} {a b : List Slot} (h : ids.Precedes a b) :
    ¬ ids.Precedes b a := by
  have hasymm : Std.Asymm fun x y => ids.idAt x < ids.idAt y := ⟨fun _ _ => Nat.lt_asymm⟩
  exact (List.Lex.asymm _).asymm a b h

/-- The order of two slots is the order of the paths that one path goes on to. -/
theorem precedes_concat {ids : Snapshot} (path : List Slot) {x y : Slot}
    (h : ids.idAt x < ids.idAt y) : ids.Precedes (path ++ [x]) (path ++ [y]) :=
  List.Lex.append_left (fun a b => ids.idAt a < ids.idAt b) (.rel h) path

/-- Paths of one length stay in their order when each goes on. -/
theorem Precedes.concat {ids : Snapshot} {a b : List Slot} (h : ids.Precedes a b)
    (hlength : a.length = b.length) (x y : Slot) : ids.Precedes (a ++ [x]) (b ++ [y]) := by
  induction h with
  | nil => cases hlength
  | rel hlt => exact .rel hlt
  | cons _ ih => exact .cons (ih (Nat.succ.inj hlength))

/-- There is one last longest chain to a slot at most. -/
theorem LastLongest.eq {ids : Snapshot} {other : List Slot}
    (h : snapshot.LastLongest ids first path last)
    (hother : snapshot.LastLongest ids first other last) : other = path := by
  have hlength : other.length = path.length :=
    Nat.le_antisymm (h.longest other hother.chain) (hother.longest path h.chain)
  rcases h.latest other hother.chain hlength with heq | hlt
  · exact heq
  · rcases hother.latest path h.chain hlength.symm with heq | hgt
    · exact heq.symm
    · exact absurd hgt hlt.asymm

/-! ## Ranks -/

/-- A relation that only goes down in rank has no cycle. -/
theorem acyclic_of_rank (rank : Slot → Nat)
    (h : ∀ reader slot, snapshot.Reads reader slot → rank slot < rank reader) :
    snapshot.Acyclic := by
  intro slot hcycle
  have hlt : ∀ {a b : Slot}, Relation.TransGen snapshot.Reads a b → rank b < rank a := by
    intro a b hab
    induction hab with
    | single hstep => exact h _ _ hstep
    | tail _ hstep ih => exact Nat.lt_trans (h _ _ hstep) ih
  exact Nat.lt_irrefl _ (hlt hcycle)

/-- A chain is no longer than its slots rise in rank. -/
theorem Chain.length_add_rank_le (hchain : snapshot.Chain first path last) (rank : Slot → Nat)
    (h : ∀ reader slot, snapshot.Reads reader slot → rank slot < rank reader) :
    path.length + rank first ≤ rank last := by
  induction hchain with
  | nil => simp
  | snoc _ hfeeds ih =>
    have hlt := h _ _ hfeeds.2
    rw [List.length_append, List.length_singleton]
    omega

/-- Where no rank is above a bound, no chain is longer than that. -/
theorem Chain.length_le (hchain : snapshot.Chain first path last) (rank : Slot → Nat)
    (h : ∀ reader slot, snapshot.Reads reader slot → rank slot < rank reader) {bound : Nat}
    (hbound : ∀ cell ∈ snapshot, rank cell.slot ≤ bound) : path.length ≤ bound := by
  cases hchain with
  | nil => exact Nat.zero_le _
  | snoc hbefore hfeeds =>
    rcases hfeeds.2 with ⟨cell, hcell, rfl, -⟩
    have hrank := (hbefore.snoc hfeeds).length_add_rank_le rank h
    have hle := hbound cell hcell
    omega

end SheetLedger.Snapshot
