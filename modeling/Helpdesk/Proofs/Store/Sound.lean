import Helpdesk.Store.Change
import Mathlib.Data.List.Basic

/-! Rows in their tables stand under increasing numbers. A database without rows is like this, and every
change that succeeds keeps it so. -/

namespace Helpdesk.Store

def Ordered (rows : List Row) : Prop := rows.Pairwise fun a b => a.rowid < b.rowid

instance (rows : List Row) : Decidable (Ordered rows) :=
  inferInstanceAs (Decidable (List.Pairwise _ _))

def Sound (s : Store) : Prop := ∀ t ∈ s.tables, Ordered t.rows

theorem table_eq_ok {s : Store} {name : String} {t : Table} :
    s.table name = .ok t ↔ s.table? name = some t := by
  rw [table]
  cases s.table? name <;> simp

theorem Sound.ordered {s : Store} (h : s.Sound) {name : String} {t : Table}
    (found : s.table? name = some t) : Ordered t.rows :=
  h t (List.mem_of_find?_eq_some found)

section Order
variable {rows : List Row} {r : Row}

theorem lt_or_lt_of_ne {a b : Int64} (h : a ≠ b) : a < b ∨ b < a := by
  rw [Int64.lt_iff_toInt_lt, Int64.lt_iff_toInt_lt]
  have different : a.toInt ≠ b.toInt := fun same => h (Int64.toInt_inj.1 same)
  omega

theorem lt_trans {a b c : Int64} (first : a < b) (second : b < c) : a < c := by
  rw [Int64.lt_iff_toInt_lt] at *
  omega

theorem lt_irrefl (a : Int64) : ¬ a < a := by
  rw [Int64.lt_iff_toInt_lt]
  omega

theorem mem_place {x : Row} : x ∈ Table.place r rows ↔ x = r ∨ x ∈ rows := by
  induction rows with
  | nil => simp [Table.place]
  | cons o os ih =>
    rw [Table.place]
    split
    · exact List.mem_cons
    · rw [List.mem_cons, ih, List.mem_cons, or_left_comm]

theorem ordered_place (h : Ordered rows) (fresh : ∀ o ∈ rows, o.rowid ≠ r.rowid) :
    Ordered (Table.place r rows) := by
  induction rows with
  | nil => exact List.pairwise_singleton _ _
  | cons o os ih =>
    obtain ⟨first, rest⟩ := List.pairwise_cons.1 h
    rw [Table.place]
    split
    next before =>
      refine List.pairwise_cons.2 ⟨fun x hx => ?_, h⟩
      rcases List.mem_cons.1 hx with rfl | later
      · exact before
      · exact lt_trans before (first x later)
    next behind =>
      have after : o.rowid < r.rowid :=
        (lt_or_lt_of_ne (fresh o List.mem_cons_self)).resolve_right behind
      refine List.pairwise_cons.2
        ⟨fun x hx => ?_, ih rest fun x hx => fresh x (List.mem_cons_of_mem _ hx)⟩
      rcases mem_place.1 hx with rfl | old
      · exact after
      · exact first x old

theorem place_of_lt (h : ∀ o ∈ rows, o.rowid < r.rowid) : Table.place r rows = rows ++ [r] := by
  induction rows with
  | nil => rfl
  | cons o os ih =>
    obtain ⟨first, others⟩ := List.forall_mem_cons.1 h
    rw [Table.place, if_neg fun before => lt_irrefl _ (lt_trans first before),
      ih others, List.cons_append]

theorem mem_sortRows {x : Row} : x ∈ sortRows rows ↔ x ∈ rows := by
  induction rows with
  | nil => exact Iff.rfl
  | cons r rows ih =>
    have step : sortRows (r :: rows) = Table.place r (sortRows rows) := rfl
    rw [step, mem_place, ih, List.mem_cons]

theorem ordered_sortRows (h : (rows.map Row.rowid).Nodup) : Ordered (sortRows rows) := by
  induction rows with
  | nil => exact List.Pairwise.nil
  | cons r rows ih =>
    rw [List.map_cons, List.nodup_cons] at h
    refine ordered_place (ih h.2) fun o ho same => h.1 ?_
    exact same ▸ List.mem_map_of_mem (mem_sortRows.1 ho)

theorem nodup_of_ordered (h : Ordered rows) : (rows.map Row.rowid).Nodup := by
  rw [List.Nodup, List.pairwise_map]
  refine h.imp fun {a b} less same => ?_
  rw [same] at less
  exact lt_irrefl b.rowid less

end Order

theorem Sound.withTable {s : Store} (h : s.Sound) {t : Table} (ht : Ordered t.rows) :
    (s.withTable t).Sound := by
  intro u hu
  obtain ⟨v, hv, rfl⟩ := List.mem_map.1 hu
  split
  · exact ht
  · exact h v hv

def Reaches (top : Option Int64) (i : Int64) : Prop := ∃ k, top = some k ∧ ¬ k < i

theorem reaches_higher (top : Option Int64) (r : Row) : Reaches (Table.higher top r) r.rowid := by
  refine ⟨_, rfl, ?_⟩
  cases top with
  | none => exact lt_irrefl r.rowid
  | some i =>
    dsimp only
    split
    · exact lt_irrefl r.rowid
    next stays => exact stays

theorem Reaches.higher {top : Option Int64} {i : Int64} (h : Reaches top i) (r : Row) :
    Reaches (Table.higher top r) i := by
  obtain ⟨k, rfl, reached⟩ := h
  refine ⟨_, rfl, ?_⟩
  dsimp only
  split
  next less =>
    intro beyond
    exact reached (lt_trans less beyond)
  · exact reached

theorem reaches_foldl (rows : List Row) (top : Option Int64) :
    (∀ i, Reaches top i → Reaches (rows.foldl Table.higher top) i) ∧
      ∀ r ∈ rows, Reaches (rows.foldl Table.higher top) r.rowid := by
  induction rows generalizing top with
  | nil => exact ⟨fun i h => h, fun r hr => absurd hr List.not_mem_nil⟩
  | cons r rows ih =>
    obtain ⟨kept, reached⟩ := ih (Table.higher top r)
    exact ⟨fun i h => kept i (h.higher r),
      List.forall_mem_cons.2 ⟨kept _ (reaches_higher top r), reached⟩⟩

theorem toInt_add_one {i : Int64} (h : i ≠ Int64.maxValue) : (i + 1).toInt = i.toInt + 1 := by
  have bound := i.toInt_lt
  have low := i.le_toInt
  have notTop : i.toInt ≠ 2 ^ 63 - 1 := fun same => h (Int64.toInt_inj.1 same)
  have one : (1 : Int64).toInt = 1 := by decide
  rw [Int64.toInt_add, one, Int.bmod_def]
  split <;> omega

theorem lt_add_one {i : Int64} (h : i ≠ Int64.maxValue) : i < i + 1 := by
  rw [Int64.lt_iff_toInt_lt, toInt_add_one h]
  omega

theorem lt_of_nextRowid? {t : Table} {i : Int64} (h : t.nextRowid? = some i) :
    ∀ r ∈ t.rows, r.rowid < i := by
  intro r hr
  obtain ⟨top, found, reached⟩ := (reaches_foldl t.rows none).2 r hr
  have largest : t.topRowid? = some top := found
  have used : ∃ used, ¬ used < top ∧ used ≠ Int64.maxValue ∧ i = used + 1 := by
    rw [Table.nextRowid?, largest] at h
    by_cases given : t.schema.neverReused = true ∧ top < t.lastRowid
    · simp only [given, and_self, if_true] at h
      split at h
      · cases h
      next notMax =>
        cases h
        exact ⟨_, fun less => lt_irrefl top (lt_trans given.2 less), notMax, rfl⟩
    · simp only [given, if_false] at h
      split at h
      · cases h
      next notMax =>
        cases h
        exact ⟨top, lt_irrefl top, notMax, rfl⟩
  obtain ⟨used, beyond, notMax, rfl⟩ := used
  have next := lt_add_one notMax
  rw [Int64.lt_iff_toInt_lt] at *
  omega

section Changes
variable {s s' : Store} {name : String}

theorem demand_eq_ok {holds : Bool} {fault : StoreFault} {u : Unit} :
    demand holds fault = .ok u ↔ holds = true := by
  rw [demand]
  cases holds <;> simp

theorem checkAssigned_eq_ok {t : Table} {assigned : List (String × Cell)} {u : Unit} :
    checkAssigned t name assigned = .ok u ↔ ∀ a ∈ assigned, (t.schema.place? a.1).isSome := by
  rw [checkAssigned]
  cases found : assigned.find? fun a => (t.schema.place? a.1).isNone with
  | none => simpa [Option.isSome_iff_ne_none] using found
  | some a =>
    have missing := List.find?_some found
    simp only [reduceCtorEq, false_iff]
    intro there
    have some_ := there a (List.mem_of_find?_eq_some found)
    simp [Option.isNone_iff_eq_none.1 missing] at some_

/-- An insertion that succeeds has passed every check and puts its row behind those of the table. -/
theorem insert_eq_ok {assigned : List (String × Cell)} {i : Int64} :
    s.insert name assigned = .ok (i, s') ↔ ∃ t, s.table? name = some t ∧
      (∀ a ∈ assigned, (t.schema.place? a.1).isSome) ∧
      s.checkParents t.schema.references = .ok () ∧ t.nextRowid? = some i ∧
      t.checkNotNull ⟨i, t.newCells i assigned⟩ = .ok () ∧
      t.checkUnique ⟨i, t.newCells i assigned⟩ t.rows = .ok () ∧
      s.isAnchored t ⟨i, t.newCells i assigned⟩ = true ∧
      s' = s.withTable
        { t with rows := t.rows ++ [⟨i, t.newCells i assigned⟩], lastRowid := i } := by
  constructor
  · intro h
    obtain ⟨t, found, h⟩ := bind_eq_ok.1 h
    obtain ⟨_, columns, h⟩ := bind_eq_ok.1 h
    obtain ⟨_, parents, h⟩ := bind_eq_ok.1 h
    split at h
    · cases h
    next rowid next =>
      obtain ⟨_, notNull, h⟩ := bind_eq_ok.1 h
      obtain ⟨_, unique, h⟩ := bind_eq_ok.1 h
      obtain ⟨_, anchored, h⟩ := bind_eq_ok.1 h
      cases h
      refine ⟨t, table_eq_ok.1 found, checkAssigned_eq_ok.1 columns, parents, next, notNull, unique,
        demand_eq_ok.1 anchored, ?_⟩
      rw [place_of_lt (r := ⟨i, t.newCells i assigned⟩) (lt_of_nextRowid? next)]
  · rintro ⟨t, found, columns, parents, next, notNull, unique, anchored, rfl⟩
    refine bind_eq_ok.2 ⟨t, table_eq_ok.2 found, bind_eq_ok.2 ⟨(), checkAssigned_eq_ok.2 columns,
      bind_eq_ok.2 ⟨(), parents, ?_⟩⟩⟩
    rw [next]
    refine bind_eq_ok.2 ⟨(), notNull,
      bind_eq_ok.2 ⟨(), unique, bind_eq_ok.2 ⟨(), demand_eq_ok.2 anchored, ?_⟩⟩⟩
    rw [place_of_lt (r := ⟨i, t.newCells i assigned⟩) (lt_of_nextRowid? next)]

theorem Sound.insert (h : s.Sound) {assigned : List (String × Cell)} {i : Int64}
    (hi : s.insert name assigned = .ok (i, s')) : s'.Sound := by
  obtain ⟨t, found, -, -, next, -, -, -, rfl⟩ := insert_eq_ok.1 hi
  refine h.withTable
    (List.pairwise_append.2 ⟨h.ordered found, List.pairwise_singleton _ _, ?_⟩)
  intro o ho r hr
  rw [List.mem_singleton.1 hr]
  exact lt_of_nextRowid? next o ho

theorem Sound.delete (h : s.Sound) {column : String} {x : Cell} {n : Nat}
    (hd : s.delete name column x = .ok (n, s')) : s'.Sound := by
  obtain ⟨t, found, hd⟩ := bind_eq_ok.1 hd
  obtain ⟨w, _, hd⟩ := bind_eq_ok.1 hd
  obtain ⟨_, _, hd⟩ := bind_eq_ok.1 hd
  rw [List.partition_eq_filter_filter] at hd
  obtain ⟨_, _, hd⟩ := bind_eq_ok.1 hd
  cases hd
  exact h.withTable ((h.ordered (table_eq_ok.1 found)).filter _)

theorem nodup_of_checkRows {t : Table} {others rows : List Row}
    (nodup : (others.map Row.rowid).Nodup)
    (h : checkRows t others rows = .ok ()) : ((rows ++ others).map Row.rowid).Nodup := by
  induction rows generalizing others with
  | nil => exact nodup
  | cons r rs ih =>
    obtain ⟨_, _, h⟩ := bind_eq_ok.1 h
    obtain ⟨_, unique, h⟩ := bind_eq_ok.1 h
    have fresh : r.rowid ∉ others.map Row.rowid := by
      intro member
      obtain ⟨o, ho, same⟩ := List.mem_map.1 member
      have shared : (others.any fun o => o.rowid == r.rowid) = true :=
        List.any_eq_true.2 ⟨o, ho, by simp [same]⟩
      rw [Table.checkUnique, Table.shared?, if_pos shared] at unique
      cases unique
    have nodup' : ((r :: others).map Row.rowid).Nodup := List.nodup_cons.2 ⟨fresh, nodup⟩
    have rest := ih nodup' h
    refine (List.Perm.nodup_iff ?_).1 rest
    exact (List.perm_middle.map Row.rowid)

theorem Sound.update (h : s.Sound) {column whereColumn : String} {x equals : Cell} {n : Nat}
    (hu : s.update name column x whereColumn equals = .ok (n, s')) : s'.Sound := by
  obtain ⟨t, found, hu⟩ := bind_eq_ok.1 hu
  obtain ⟨p, _, hu⟩ := bind_eq_ok.1 hu
  obtain ⟨w, _, hu⟩ := bind_eq_ok.1 hu
  obtain ⟨_, _, hu⟩ := bind_eq_ok.1 hu
  rw [List.partition_eq_filter_filter] at hu
  obtain ⟨changed, _, hu⟩ := bind_eq_ok.1 hu
  obtain ⟨_, checked, hu⟩ := bind_eq_ok.1 hu
  obtain ⟨_, _, hu⟩ := bind_eq_ok.1 hu
  obtain ⟨_, _, hu⟩ := bind_eq_ok.1 hu
  cases hu
  refine h.withTable (ordered_sortRows (nodup_of_checkRows ?_ checked))
  exact nodup_of_ordered ((h.ordered (table_eq_ok.1 found)).filter _)

theorem Sound.drop (h : s.Sound) (hd : s.drop name = .ok s') : s'.Sound := by
  obtain ⟨t, _, hd⟩ := bind_eq_ok.1 hd
  obtain ⟨_, _, hd⟩ := bind_eq_ok.1 hd
  cases hd
  exact fun u hu => h u (List.mem_of_mem_filter hu)

theorem Sound.ensure (h : s.Sound) (schema : Schema) : (s.ensure schema).Sound := by
  rw [Store.ensure]
  split
  · exact h
  · intro t ht
    rcases List.mem_append.1 ht with old | new
    · exact h t old
    · rw [List.mem_singleton.1 new]
      exact List.Pairwise.nil

theorem Sound.migrate (h : s.Sound) : s.migrate.Sound := by
  have ensured : (Schema.all.foldl Store.ensure s).Sound := by
    generalize Schema.all = schemas
    induction schemas generalizing s with
    | nil => exact h
    | cons schema schemas ih => exact ih (h.ensure schema)
  rw [Store.migrate, addSource]
  split
  · exact ensured
  next t found =>
    split
    · exact ensured
    · exact ensured.withTable (List.pairwise_map.2 (ensured.ordered found))

end Changes

theorem sound_fresh : fresh.Sound := Sound.migrate fun _ ht => absurd ht List.not_mem_nil

end Helpdesk.Store
