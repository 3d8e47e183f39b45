import Helpdesk.Proofs.Audit
import Helpdesk.Proofs.Store.History
import Helpdesk.Proofs.Store.Lookup
import Mathlib.Data.List.Induction

/-! The audit log loses nothing, repeats nothing and mixes nothing up. Whatever is stored one after
another, the entries about an object are the changes of it that were asked for, the newest first
(`logEntries_run`), as long as their years have four digits and their diffs can be read back from
JSON text. The log takes changes until it runs out of numbers (`changesOf_run`). -/

namespace Helpdesk

namespace AuditEntry

def wholeSeconds (e : AuditEntry) : AuditEntry := { e with loggedAt := e.loggedAt.wholeSeconds }

structure IsReadable (e : AuditEntry) : Prop where
  logged : e.loggedAt.HasFourDigitYear
  plain : ∀ d ∈ e.diffs, d.isPlain
  levels : (diffsDocument e.diffs).depth ≤ Document.jsonRoom

instance (e : AuditEntry) : Decidable e.IsReadable :=
  decidable_of_iff (e.loggedAt.HasFourDigitYear ∧ (∀ d ∈ e.diffs, d.isPlain) ∧
      (diffsDocument e.diffs).depth ≤ Document.jsonRoom)
    ⟨fun h => ⟨h.1, h.2.1, h.2.2⟩, fun h => ⟨h.logged, h.plain, h.levels⟩⟩

def isAbout (objectClass : String) (objectId : Int64) (e : AuditEntry) : Bool :=
  e.objectClass = objectClass ∧ e.objectId = objectId

/-- Entries again, with higher versions first and equal versions in the opposite order. -/
structure NewestFirst (es newest : List AuditEntry) : Prop where
  perm : newest.Perm es
  versions : newest.Pairwise fun a b => b.version ≤ a.version
  ties : ∀ v, newest.filter (·.version = v) = (es.filter (·.version = v)).reverse

theorem NewestFirst.map_wholeSeconds {es newest : List AuditEntry} (h : NewestFirst es newest) :
    NewestFirst (es.map wholeSeconds) (newest.map wholeSeconds) := by
  refine ⟨h.perm.map _, List.pairwise_map.2 h.versions, fun v => ?_⟩
  have ties := congrArg (List.map wholeSeconds) (h.ties v)
  rw [List.map_reverse] at ties
  rwa [List.filter_map, List.filter_map]

theorem NewestFirst.unique {es xs ys : List AuditEntry} (hx : NewestFirst es xs)
    (hy : NewestFirst es ys) : xs = ys := by
  have perm : xs.Perm ys := hx.perm.trans hy.perm.symm
  have ties (v : Int64) : xs.filter (·.version = v) = ys.filter (·.version = v) :=
    (hx.ties v).trans (hy.ties v).symm
  obtain ⟨-, sorted, -⟩ := hx
  obtain ⟨-, sorted', -⟩ := hy
  induction xs generalizing ys with
  | nil => exact perm.nil_eq
  | cons a xs ih =>
    cases ys with
    | nil => exact perm.eq_nil
    | cons b ys =>
      obtain ⟨highest, rest⟩ := List.pairwise_cons.1 sorted
      obtain ⟨highest', rest'⟩ := List.pairwise_cons.1 sorted'
      have below : ∀ e ∈ a :: xs, e.version ≤ a.version :=
        List.forall_mem_cons.2 ⟨Int64.le_refl _, highest⟩
      have below' : ∀ e ∈ b :: ys, e.version ≤ b.version :=
        List.forall_mem_cons.2 ⟨Int64.le_refl _, highest'⟩
      have version : a.version = b.version :=
        Int64.le_antisymm (below' a (perm.subset List.mem_cons_self))
          (below b (perm.symm.subset List.mem_cons_self))
      have same : a = b := by
        have front := ties b.version
        simp only [version, List.filter_cons_of_pos, decide_true] at front
        exact (List.cons.inj front).1
      subst same
      have others (v : Int64) : xs.filter (·.version = v) = ys.filter (·.version = v) := by
        have front := ties v
        rw [List.filter_cons, List.filter_cons] at front
        split at front
        · exact (List.cons.inj front).2
        · exact front
      rw [ih perm.cons_inv others rest rest']

end AuditEntry

namespace Store

def Operation.entry? : Operation → Option AuditEntry
  | change e => some e
  | _ => none

def changesOf (h : History) : List (Int64 × AuditEntry) :=
  h.filterMap fun
    | (.change e, some i) => some (i, e)
    | _ => none

theorem mem_changesOf {h : History} {i : Int64} {e : AuditEntry} :
    (i, e) ∈ changesOf h ↔ (.change e, some i) ∈ h := by
  refine ⟨fun found => ?_, fun done => List.mem_filterMap.2 ⟨_, done, rfl⟩⟩
  obtain ⟨⟨o, n⟩, done, same⟩ := List.mem_filterMap.1 found
  cases o with
  | change e => cases n <;> cases same; exact done
  | _ => cases n <;> cases same

theorem changesOf_append (h : History) (o : Operation) (i : Int64) :
    (changesOf (h ++ [(o, o.returned i)])).map Prod.snd =
      (changesOf h).map Prod.snd ++ o.entry?.toList := by
  rw [changesOf, List.filterMap_append, List.map_append]
  cases o <;> rfl

def loggedRow (p : Int64 × AuditEntry) : Row :=
  Schema.auditLog.row p.1 (Operation.change p.2).cells

theorem recordedRows_auditLog (h : History) :
    recordedRows .auditLog h = (changesOf h).map loggedRow := by
  rw [recordedRows, changesOf, List.map_filterMap]
  refine List.filterMap_congr fun e _ => ?_
  obtain ⟨o, n⟩ := e
  cases o <;> cases n <;> rfl

section Reading
variable {t : Table}

def newestKeys : List SortKey :=
  [⟨.column 4 (Schema.integerColumn "version"), true⟩, ⟨.column 0 Schema.idColumn, true⟩]

theorem prepare_entriesLookup (objectClass : String) (objectId : Int64) :
    ∃ p, (entriesLookup objectClass objectId).prepare (.empty .auditLog) = .ok p ∧
      p.keys = newestKeys ∧ (∀ e, p.select (loggedRow e) = (Operation.change e.2).cells) ∧
      ∀ e, p.admits (loggedRow e) = e.2.isAbout objectClass objectId := by
  refine ⟨_, rfl, rfl, fun e => rfl, fun e => ?_⟩
  have sameClass := equals_text (c := Schema.textColumn "object_class") (r := loggedRow e)
    (n := 1) (a := e.2.objectClass) rfl rfl objectClass
  have sameId := equals_int (c := Schema.integerColumn "object_id") (r := loggedRow e)
    (n := 2) (i := e.2.objectId) rfl rfl objectId
  simp [Prepared.admits, sameClass, sameId, AuditEntry.isAbout]

def Newer (p q : Int64 × AuditEntry) : Prop :=
  Row.MayPrecede newestKeys (loggedRow p) (loggedRow q)

instance : DecidableRel Newer := fun _ _ => inferInstanceAs (Decidable (Row.MayPrecede _ _ _))

theorem newer_iff {p q : Int64 × AuditEntry} : Newer p q ↔
    q.2.version.toInt < p.2.version.toInt ∨
      q.2.version.toInt = p.2.version.toInt ∧ q.1.toInt ≤ p.1.toInt := by
  have keys : Row.compareBy newestKeys (loggedRow p) (loggedRow q) =
      (compare p.2.version.toInt q.2.version.toInt).swap.then
        ((compare p.1.toInt q.1.toInt).swap.then .eq) := rfl
  rw [Newer, Row.MayPrecede, keys]
  rcases lt_trichotomy p.2.version.toInt q.2.version.toInt with lower | same | higher
  · rw [compare_lt_iff_lt.2 lower]
    exact iff_of_false (fun h => h rfl) (by omega)
  · rw [compare_eq_iff_eq.2 same, Ordering.swap_eq, Ordering.eq_then, Ordering.then_eq, Ne,
      Ordering.swap_eq_gt, compare_lt_iff_lt]
    omega
  · rw [compare_gt_iff_gt.2 higher]
    exact iff_of_true nofun (.inl higher)

instance : Std.Total Newer := ⟨fun p q => by
  rw [newer_iff, newer_iff]
  omega⟩

instance : IsTrans _ Newer := ⟨fun p q r => by
  rw [newer_iff, newer_iff, newer_iff]
  omega⟩

theorem newestFirst_insertionSort {ps : List (Int64 × AuditEntry)}
    (numbered : ps.Pairwise fun p q => p.1 < q.1) :
    AuditEntry.NewestFirst (ps.map Prod.snd) ((ps.insertionSort Newer).map Prod.snd) := by
  have sorted : (ps.insertionSort Newer).Pairwise Newer := List.pairwise_insertionSort Newer ps
  have perm : (ps.insertionSort Newer).Perm ps := List.perm_insertionSort Newer ps
  refine ⟨perm.map _, List.pairwise_map.2 (sorted.imp fun {p q} before => ?_), fun v => ?_⟩
  · rw [newer_iff] at before
    rw [Int64.le_iff_toInt_le]
    omega
  · -- Among changes of one version only their numbers count, and these are apart.
    have descending : ((ps.filter fun p => p.2.version = v).reverse).Pairwise fun p q => q.1 < p.1 :=
      List.pairwise_reverse.2 (numbered.filter _)
    have same : ((ps.insertionSort Newer).filter fun p => p.2.version = v).Pairwise fun p q =>
        q.1 ≤ p.1 := by
      refine (sorted.filter _).imp_of_mem fun {p q} hp hq before => ?_
      have version : q.2.version = p.2.version :=
        (of_decide_eq_true (List.mem_filter.1 hq).2).trans
          (of_decide_eq_true (List.mem_filter.1 hp).2).symm
      rw [newer_iff, version] at before
      rw [Int64.le_iff_toInt_le]
      omega
    have apart : (ps.map Prod.fst).Nodup :=
      List.pairwise_map.2 (numbered.imp fun {p q} less => Int64.ne_of_lt less)
    rw [List.filter_map, List.filter_map, ← List.map_reverse]
    refine congrArg _ (List.Perm.eq_of_pairwise (fun p q hp hq first second => ?_) same
      (descending.imp Int64.le_of_lt) ((perm.filter _).trans (List.reverse_perm _).symm))
    exact List.inj_on_of_nodup_map apart (perm.subset (List.mem_of_mem_filter hp))
      (List.mem_of_mem_filter (List.mem_reverse.1 hq)) (Int64.le_antisymm second first)

def unread (e : AuditEntry) : LoggedEntry :=
  ⟨e.objectClass, e.objectId, e.action, e.version, e.loggedAt.wholeSeconds,
    (AuditEntry.diffsDocument e.diffs).toJson⟩

theorem readLogged_cells {e : AuditEntry} (four : e.loggedAt.HasFourDigitYear) :
    readLogged (Operation.change e).cells = .ok (unread e) := by
  have actionKnown (c : String) : known Action.ofName? e.action.name c = .ok e.action := by
    rw [known, Action.ofName?_name]
  have moment (c : String) : momentOf e.loggedAt.toStored c = .ok e.loggedAt.wholeSeconds :=
    momentOf_eq_ok.2 ⟨four, rfl⟩
  have objectClass : textAt (Operation.change e).cells 0 = .ok e.objectClass := rfl
  have objectId : intAt (Operation.change e).cells 1 = .ok e.objectId := rfl
  have action : textAt (Operation.change e).cells 2 = .ok e.action.name := rfl
  have version : intAt (Operation.change e).cells 3 = .ok e.version := rfl
  have logged : textAt (Operation.change e).cells 4 = .ok e.loggedAt.toStored := rfl
  have data : textAt (Operation.change e).cells 5 =
    .ok (AuditEntry.diffsDocument e.diffs).toJson := rfl
  simp only [readLogged, objectClass, objectId, action, version, logged, data, ok_bind, actionKnown,
    moment, unread]

theorem readDiffs_unread {e : AuditEntry} (readable : e.IsReadable) :
    readDiffs (unread e) = .ok e.wholeSeconds := by
  have diffs := AuditEntry.diffs_of_toJson readable.plain readable.levels
  simp only [readDiffs, unread, diffs]
  rfl

theorem mapM_readLogged {es : List (Int64 × AuditEntry)} (readable : ∀ e ∈ es, e.2.IsReadable) :
    ∃ logged, (es.map fun e => (Operation.change e.2).cells).mapM readLogged = .ok logged ∧
      logged.mapM readDiffs = .ok ((es.map Prod.snd).map AuditEntry.wholeSeconds) := by
  rw [List.map_map]
  exact ⟨_, mapM_map_eq_pure fun e he => readLogged_cells (readable e he).logged,
    mapM_map_eq_pure fun e he => readDiffs_unread (readable e he)⟩

theorem logEntries_of_lists {s : Store} {t : Table} {ps : List (Int64 × AuditEntry)}
    (lists : s.Lists .auditLog t (ps.map loggedRow)) (numbered : ps.Pairwise fun p q => p.1 < q.1)
    {objectClass : String} {objectId : Int64}
    (readable : ∀ e ∈ (ps.map Prod.snd).filter (AuditEntry.isAbout objectClass objectId), e.IsReadable) :
    ∃ entries, s.logEntries objectClass objectId = .ok entries ∧ AuditEntry.NewestFirst
      (((ps.map Prod.snd).filter (AuditEntry.isAbout objectClass objectId)).map
        AuditEntry.wholeSeconds) entries := by
  obtain ⟨p, prepared, keys, selects, admits⟩ := prepare_entriesLookup objectClass objectId
  have found := fetch_of_lists lists rfl prepared
  rw [p.run_map fun e _ => admits e, keys] at found
  simp only [selects] at found
  rw [List.filter_map] at readable ⊢
  have newest := newestFirst_insertionSort
    (numbered.filter fun e => e.2.isAbout objectClass objectId)
  obtain ⟨logged, read, diffs⟩ := mapM_readLogged fun e he =>
    readable e.2 (List.mem_map_of_mem ((List.mem_insertionSort Newer).1 he))
  refine ⟨_, ?_, newest.map_wholeSeconds⟩
  rw [logEntries, found, ok_bind]
  exact bind_eq_ok.2 ⟨logged, outcome_eq_ok.2 read, diffs⟩

end Reading

theorem listsChanges_run (os : List Operation) :
    ∃ t, (run os).store.Lists .auditLog t ((changesOf (run os).history).map loggedRow) ∧
      (changesOf (run os).history).Pairwise fun p q => p.1 < q.1 := by
  obtain ⟨t, lists⟩ := lists_run os .auditLog (by decide) (by decide)
  rw [recordedRows_auditLog] at lists
  have ordered := (sound_run os).ordered lists.table
  rw [lists.rows, Ordered, List.pairwise_map] at ordered
  exact ⟨t, lists, ordered⟩

theorem insert_change {s : Store} {t : Table} {rows : List Row} {i : Int64}
    (lists : s.Lists .auditLog t rows) (next : t.nextRowid? = some i) (e : AuditEntry) :
    ∃ s', s.insert "audit_log" (Operation.change e).cells = .ok (i, s') := by
  have named : ∀ a ∈ (Operation.change e).cells, (t.schema.place? a.1).isSome := by
    rw [lists.schema]
    simp only [Operation.cells, List.forall_mem_cons]
    exact ⟨rfl, rfl, rfl, rfl, rfl, rfl, List.forall_mem_nil _⟩
  have parents : s.checkParents t.schema.references = .ok () := by
    rw [lists.schema]
    rfl
  have whole : t.checkNotNull ⟨i, t.newCells i (Operation.change e).cells⟩ = .ok () := by
    rw [Table.checkNotNull, Table.newCells, lists.schema]
    rfl
  have unique : t.checkUnique ⟨i, t.newCells i (Operation.change e).cells⟩ t.rows = .ok () := by
    refine checkUnique_eq_ok.2 ⟨fun o ho same => ?_, ?_⟩
    · have behind := lt_of_nextRowid? next o ho
      rw [same] at behind
      exact lt_irrefl _ behind
    · rw [lists.schema]
      exact fun columns hc => absurd hc List.not_mem_nil
  have anchored : s.isAnchored t ⟨i, t.newCells i (Operation.change e).cells⟩ = true := by
    rw [isAnchored, lists.schema]
    rfl
  exact ⟨_, insert_eq_ok.2
    ⟨t, lists.table, named, parents, next, whole, unique, anchored, rfl⟩⟩

def logCapacity : Nat := 9223372036854775807

section Run
variable (os : List Operation)

theorem perform_change (e : AuditEntry) :
    (∃ r, (run os).store.perform (.change e) = .ok r) ↔
      (changesOf (run os).history).length < logCapacity := by
  obtain ⟨t, lists⟩ := lists_run os .auditLog (by decide) (by decide)
  have never : t.schema.neverReused := by
    rw [lists.schema]
    decide
  have numbered := numbered_run os t (List.mem_of_find?_eq_some lists.table) never
  have count : t.lastRowid.toInt = (changesOf (run os).history).length := by
    rw [numbered.last, lists.rows, recordedRows_auditLog, List.length_map]
  have room : t.lastRowid ≠ Int64.maxValue ↔ (changesOf (run os).history).length < logCapacity := by
    have bound := t.lastRowid.toInt_lt
    have top : Int64.maxValue.toInt = 9223372036854775807 := by decide
    rw [Ne, ← Int64.toInt_inj, top, count, logCapacity]
    omega
  have next := numbered.nextRowid? never
  rw [← room]
  constructor
  · rintro ⟨⟨n, s⟩, performed⟩ full
    obtain ⟨i, inserted, -⟩ := perform_eq_ok.1 performed
    obtain ⟨u, found, -, -, number, -⟩ := insert_eq_ok.1 inserted
    obtain rfl : t = u := Option.some.inj (lists.table.symm.trans found)
    rw [if_pos full, number] at next
    cases next
  · intro notFull
    rw [if_neg notFull] at next
    obtain ⟨s, inserted⟩ := insert_change lists next e
    exact ⟨_, perform_eq_ok.2 ⟨_, inserted, rfl⟩⟩

/-- The changes that a run logs: those that are asked for, as many of them as the log can hold. -/
def logged : List AuditEntry := (os.filterMap Operation.entry?).take logCapacity

theorem changesOf_run : (changesOf (run os).history).map Prod.snd = logged os := by
  induction os using List.reverseRecOn with
  | nil => rfl
  | append_singleton os o ih =>
    have asked : (os ++ [o]).filterMap Operation.entry? =
        os.filterMap Operation.entry? ++ o.entry?.toList := by
      rw [List.filterMap_append]
      cases o <;> rfl
    have count : (changesOf (run os).history).length =
        min logCapacity (os.filterMap Operation.entry?).length := by
      rw [← List.length_map Prod.snd, ih, logged, List.length_take]
    rw [run_append, List.foldl_cons, List.foldl_nil, Desk.step, logged, asked]
    cases performed : (run os).store.perform o with
    | ok r =>
      obtain ⟨n, s⟩ := r
      obtain ⟨i, -, rfl⟩ := perform_eq_ok.1 performed
      dsimp only
      rw [changesOf_append, ih, logged]
      cases o with
      | change e =>
        have room := (perform_change os e).1 ⟨_, performed⟩
        simp only [Operation.entry?, Option.toList_some]
        rw [List.take_of_length_le (by omega), List.take_of_length_le (by simp; omega)]
      | _ => simp [Operation.entry?]
    | error fault =>
      dsimp only
      rw [ih, logged]
      cases o with
      | change e =>
        have full : ¬ (changesOf (run os).history).length < logCapacity := by
          rw [← perform_change, performed]
          rintro ⟨r, done⟩
          cases done
        rw [List.take_append_of_le_length (by omega)]
      | _ => simp [Operation.entry?]

end Run

/-- The entries about an object are the changes of it that a run logs, each of them once and cut to
whole seconds, with higher versions first and of equal versions the one that was logged last. -/
theorem logEntries_run (os : List Operation) (objectClass : String) (objectId : Int64)
    (readable : ∀ e ∈ (logged os).filter (AuditEntry.isAbout objectClass objectId), e.IsReadable) :
    ∃ entries, (run os).store.logEntries objectClass objectId = .ok entries ∧
      AuditEntry.NewestFirst
        (((logged os).filter (AuditEntry.isAbout objectClass objectId)).map AuditEntry.wholeSeconds)
        entries := by
  obtain ⟨t, lists, numbered⟩ := listsChanges_run os
  rw [← changesOf_run] at readable ⊢
  exact logEntries_of_lists lists numbered readable

namespace Printer

def noon : Time.Instant := ⟨1767268800, 123456789, by decide⟩

def change (version : Int64) (diffs : List FieldDiff) : AuditEntry :=
  ⟨ticketObject, 7, .update, version, noon, diffs⟩

def opened : AuditEntry := change 2 [⟨"status", .null, .text "new"⟩]

def corrected : AuditEntry := change Int64.minValue
  [⟨"tags", .list [.list [], .list [.int Int64.minValue, .bool true]], .text "\"a\\b\"\n\x01é"⟩]

def closed : AuditEntry :=
  change 2 [⟨"status", .text "new", .text "closed"⟩, ⟨"status", .null, .null⟩]

def log : List Operation :=
  [.change opened, .change { opened with objectId := 8 }, .change corrected, .branch "North",
    .change { closed with objectClass := attachmentObject }, .change closed]

theorem logEntries_printer : (run log).store.logEntries ticketObject 7 =
    .ok ([closed, opened, corrected].map AuditEntry.wholeSeconds) := by
  have own : (logged log).filter (AuditEntry.isAbout ticketObject 7) =
      [opened, corrected, closed] := rfl
  have readable : ∀ e ∈ [opened, corrected, closed], e.IsReadable := by decide
  obtain ⟨entries, found, newest⟩ := logEntries_run log ticketObject 7 (own ▸ readable)
  have expected : AuditEntry.NewestFirst ([opened, corrected, closed].map AuditEntry.wholeSeconds)
      ([closed, opened, corrected].map AuditEntry.wholeSeconds) := by
    refine ⟨?_, by decide, fun v => ?_⟩
    · have moved : ([closed] ++ [opened, corrected]).Perm ([opened, corrected] ++ [closed]) :=
        List.perm_append_comm
      exact moved.map _
    · have versions : opened.version = 2 ∧ corrected.version = Int64.minValue ∧
          closed.version = 2 := ⟨rfl, rfl, rfl⟩
      by_cases two : 2 = v
      · subst two
        rfl
      · by_cases low : Int64.minValue = v
        · subst low
          rfl
        · simp [AuditEntry.wholeSeconds, versions, two, low]
  rw [own] at newest
  rw [found, newest.unique expected]

end Printer

end Store
end Helpdesk
