import Helpdesk.Proofs.Rule.Emission
import Helpdesk.Proofs.Store.Selection

/-! Plans on rows. A plan is true, false or unknown on a row of a table, by the cells that its sites
lead to; the predicate that spells it is so, too, in every query (`evaluate_of_spells`). Nothing
here depends on the names of a query, so the truth of a group is that of its parts put together. -/

namespace Helpdesk
open Store

def Connector.truth : Connector → List Truth → Truth
  | .inclusive => Truth.all
  | .exclusive => Truth.any

/-- What a row of the table has at a site; a row that refers to none has only nulls there. -/
def Site.cell (s : Store) (t : Table) (row : Row) : Site → Affinity × Cell
  | .own field => t.cellIn (some row) field
  | .joined field a =>
    match s.table? a.table with
    | some u => u.cellIn (partners t u field a.key row).head? a.display
    | none => (.none, .null)

def Test.truth (s : Store) (t : Table) (row : Row) : Test → Truth
  | .never => some false
  | .nullCheck field negated => some ((t.cellIn (some row) field).2.isNull != negated)
  | .compare site op value => Cell.valueTruth op (site.cell s t row) value

namespace Plan

mutual
def truth (s : Store) (t : Table) (row : Row) : Plan → Truth
  | .test leaf => leaf.truth s t row
  | .group connector terms => connector.truth (truths s t row terms)

def truths (s : Store) (t : Table) (row : Row) : List Plan → List Truth
  | [] => []
  | p :: ps => truth s t row p :: truths s t row ps
end

theorem truths_eq_map (s : Store) (t : Table) (row : Row) (ps : List Plan) :
    truths s t row ps = ps.map (truth s t row) := by
  induction ps with
  | nil => rfl
  | cons p ps ih => rw [truths, ih, List.map_cons]

theorem truth_inclusive_iff {s : Store} {t : Table} {row : Row} {ps : List Plan} :
    (group .inclusive ps).truth s t row = some true ↔ ∀ p ∈ ps, p.truth s t row = some true := by
  rw [truth, truths_eq_map, Connector.truth, Truth.all_eq_true_iff, List.forall_mem_map]

theorem truth_exclusive_iff {s : Store} {t : Table} {row : Row} {ps : List Plan} :
    (group .exclusive ps).truth s t row = some true ↔ ∃ p ∈ ps, p.truth s t row = some true := by
  rw [truth, truths_eq_map, Connector.truth, Truth.any_eq_true_iff, List.mem_map]

theorem truth_singleton (s : Store) (t : Table) (row : Row) (connector : Connector) (p : Plan) :
    (group connector [p]).truth s t row = p.truth s t row := by
  cases connector <;> simp [truth, truths, Connector.truth]

end Plan

/-- Columns have the cells of the sites that they are the columns of. -/
def AgreesOn (joins : List Join) (s : Store) (t : Table) (row : Row)
    (cellOf : Column → Affinity × Cell) : Prop :=
  ∀ (site : Site) (column : Column), site.column? joins = some column →
    cellOf column = site.cell s t row

theorem Test.evaluate_of_spells {q : Query} {s : Store} {t : Table} {row : Row}
    {cellOf : Column → Affinity × Cell} (agrees : AgreesOn q.joins s t row cellOf) {test : Test}
    {x : Predicate} (h : test.Spells q x) :
    x.evaluate (.ofCells cellOf) q.parameter? = test.truth s t row := by
  cases test with
  | never => subst h; rfl
  | nullCheck field negated =>
    subst h
    have own := agrees (.own field) _ rfl
    simp only [Predicate.evaluate, Atoms.ofCells, own]
    rfl
  | compare site op value =>
    obtain ⟨column, name, rfl, located, bound⟩ := h
    rw [Predicate.evaluate, bound, Option.bind_some, Atoms.comparison_ofCells,
      agrees site column located]
    rfl

namespace Plan
variable {q : Query} {s : Store} {t : Table} {row : Row} {cellOf : Column → Affinity × Cell}

mutual
theorem evaluate_of_spells (agrees : AgreesOn q.joins s t row cellOf) :
    (p : Plan) → {x : Predicate} →
    p.Spells q x → x.evaluate (.ofCells cellOf) q.parameter? = p.truth s t row
  | .test leaf, x, h => Test.evaluate_of_spells agrees h
  | .group connector terms, x, h => by
    obtain ⟨xs, rfl, h⟩ := h
    have same := evaluates_of_spell agrees terms h
    cases connector <;> rw [Connector.combine, Predicate.evaluate, same] <;> rfl

theorem evaluates_of_spell (agrees : AgreesOn q.joins s t row cellOf) : (ps : List Plan) →
    {xs : List Predicate} → Spell q ps xs →
    Predicate.evaluates (.ofCells cellOf) q.parameter? xs = truths s t row ps
  | [], xs, h => by
    subst h
    rfl
  | p :: ps, xs, h => by
    obtain ⟨y, ys, rfl, first, rest⟩ := h
    rw [Predicate.evaluates, truths, evaluate_of_spells agrees p first,
      evaluates_of_spell agrees ps rest]
end

end Plan

namespace Builder

theorem toLower_of_isDigit {c : Char} (h : Text.Decimal.isDigit c) : c.toLower = c := by
  simp only [Text.Decimal.isDigit, Char.isDigit, Bool.and_eq_true, decide_eq_true_eq] at h
  exact dif_neg fun upper => absurd (UInt32.le_trans upper.1 h.2) (by decide)

theorem toLower_numberedName (n : Nat) :
    (numberedName "j" n).toList.map Char.toLower = (numberedName "j" n).toList := by
  have digits : (Text.Decimal.ofNat n).map Char.toLower = (Text.Decimal.ofNat n).map id :=
    List.map_congr_left fun c hc => toLower_of_isDigit (Text.Decimal.isDigit_of_mem_ofNat hc)
  rw [toList_numberedName, List.map_append, digits, List.map_id]
  rfl

theorem sameName_numberedName {m n : Nat} (h : sameName (numberedName "j" m) (numberedName "j" n)) :
    m = n := by
  rw [sameName, toLower_numberedName, toLower_numberedName, beq_iff_eq] at h
  exact numberedName_injective (String.toList_injective h)

theorem sameName_targetAlias (n : Nat) : sameName targetAlias (numberedName "j" n) = false := by
  rw [sameName, toLower_numberedName, toList_numberedName]
  rfl

/-- The table itself and the joins have names that are told apart without regard to case. -/
theorem Numbered.distinct {b : Builder} (h : b.Numbered) :
    (targetAlias :: b.joins.map Join.name).Pairwise fun a o => sameName a o = false := by
  have numbered (name : String) (hn : name ∈ b.joins.map Join.name) :
      ∃ n, name = numberedName "j" n := by
    obtain ⟨j, hj, rfl⟩ := List.mem_map.1 hn
    obtain ⟨i, hi, rfl⟩ := List.getElem_of_mem hj
    exact ⟨i + 1, h.joins i hi⟩
  refine List.pairwise_cons.2 ⟨fun name hn => ?_, ?_⟩
  · obtain ⟨n, rfl⟩ := numbered name hn
    exact sameName_targetAlias n
  · refine (List.Pairwise.and_mem.1 h.nodup_joins).imp ?_
    rintro a o ⟨ha, ho, different⟩
    obtain ⟨m, rfl⟩ := numbered a ha
    obtain ⟨n, rfl⟩ := numbered o ho
    rw [← Bool.not_eq_true]
    exact fun same => different (sameName_numberedName same ▸ rfl)

end Builder

theorem Builder.Join.serves_iff {j : Join} {source : Column} {a : Association} :
    Join.serves j source a ↔ j.source = source ∧ j.table = a.table ∧ j.key = a.key := by
  simp [Join.serves, and_assoc]

theorem Builder.Numbered.distinct_scope {b : Builder} (h : b.Numbered) {scope : Scope}
    (names : scope.map Range.name = targetAlias :: b.joins.map Join.name) : scope.Distinct := by
  have distinct := h.distinct
  rw [← names, List.pairwise_map] at distinct
  exact distinct

theorem Site.exists_pair {s : Store} {joins : List Join} {pairs : List (Join × Table)}
    (tables : s.JoinTables joins pairs) {field : String} {a : Association} {column : Column}
    (h : (Site.joined field a).column? joins = some column) :
    ∃ j u, (j, u) ∈ pairs ∧ s.table? a.table = some u ∧
      Builder.Join.serves j (Builder.column field) a ∧
      column = ⟨j.name, a.display⟩ := by
  obtain ⟨j, found, rfl⟩ := Option.map_eq_some_iff.1 h
  have member := List.mem_of_find?_eq_some found
  rw [← tables.1] at member
  obtain ⟨⟨j, u⟩, pair, rfl⟩ := List.mem_map.1 member
  have serves := List.find?_some found
  have table := tables.2 _ pair
  rw [(Builder.Join.serves_iff.1 serves).2.1] at table
  exact ⟨j, u, pair, table, serves, rfl⟩

theorem agreesOn_rowScope {q : Query} (numbered : Builder.Numbered ⟨q.table, q.joins, q.parameters⟩)
    {s : Store} {pairs : List (Join × Table)} (tables : s.JoinTables q.joins pairs) (t : Table)
    (row : Row) : AgreesOn q.joins s t row (rowScope t pairs row).cell := by
  have distinct : (rowScope t pairs row).Distinct := by
    refine numbered.distinct_scope ?_
    rw [← tables.1, rowScope, List.map_cons, List.map_map, List.map_map]
    rfl
  intro site column located
  cases site with
  | own field =>
    cases located
    exact Scope.cell_eq (Scope.range?_of_mem distinct List.mem_cons_self) field
  | joined field a =>
    obtain ⟨j, u, pair, table, serves, rfl⟩ := Site.exists_pair tables located
    obtain ⟨source, -, key⟩ := Builder.Join.serves_iff.1 serves
    have member : joinedRange t row (j, u) ∈ rowScope t pairs row :=
      List.mem_cons_of_mem _ (List.mem_map_of_mem pair)
    have cell := Scope.cell_eq (Scope.range?_of_mem distinct member) a.display
    rw [joinedRange] at cell
    rw [Site.cell, table, cell, source, key]
    rfl

end Helpdesk
