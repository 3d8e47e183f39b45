import Helpdesk.Proofs.Dict
import Helpdesk.Strategy
import Mathlib.Data.List.Dedup
import Mathlib.Data.List.Perm.Basic

/-! Registries of strategies. A registry knows of the last entry for every key, that is for a column or
for one operator on it, and of nothing else (`lookup?_ofEntries`). So an entry for the whole column is
never passed over for one that comes later and is for an operator, and only the order of entries with the
same key counts (`resolve?_by_precedence`). -/

namespace Helpdesk

namespace StrategyEntry

def key (e : StrategyEntry) : String × Option Operator := (e.field, e.operator)

def last? (key : String × Option Operator) (entries : List StrategyEntry) : Option Strategy :=
  (entries.filter (·.key = key)).getLast?.map strategy

/-- The same entries in another order: neighbours that are for different keys may change places. -/
inductive Reordered : List StrategyEntry → List StrategyEntry → Prop
  | refl (entries : List StrategyEntry) : Reordered entries entries
  | swap {e f : StrategyEntry} (apart : e.key ≠ f.key) (entries : List StrategyEntry) :
    Reordered (e :: f :: entries) (f :: e :: entries)
  | cons (e : StrategyEntry) {entries others : List StrategyEntry} (h : Reordered entries others) :
    Reordered (e :: entries) (e :: others)
  | trans {entries others further : List StrategyEntry} (first : Reordered entries others)
    (second : Reordered others further) : Reordered entries further

section Last
variable {entries others : List StrategyEntry} {key : String × Option Operator}

theorem last?_append_singleton (entries : List StrategyEntry) (e : StrategyEntry)
    (key : String × Option Operator) :
    last? key (entries ++ [e]) = if e.key = key then some e.strategy else last? key entries := by
  rw [last?, List.filter_append]
  split
  next same =>
    rw [List.filter_singleton, decide_eq_true same, cond_true, List.getLast?_concat]
    rfl
  next other =>
    rw [List.filter_singleton, decide_eq_false other, cond_false, List.append_nil]
    rfl

theorem isSome_last?_iff : (last? key entries).isSome ↔ key ∈ entries.map StrategyEntry.key := by
  rw [last?, Option.isSome_map, List.getLast?_isSome]
  simp [List.mem_map]

theorem mem_of_last? {s : Strategy} (h : last? key entries = some s) : ∃ e ∈ entries, e.strategy = s := by
  obtain ⟨e, found, rfl⟩ := Option.map_eq_some_iff.1 h
  exact ⟨e, (List.mem_filter.1 (List.mem_of_getLast? found)).1, rfl⟩

theorem Reordered.filter_eq (h : Reordered entries others) (key : String × Option Operator) :
    entries.filter (·.key = key) = others.filter (·.key = key) := by
  induction h with
  | refl => rfl
  | @swap e f apart entries =>
    by_cases same : e.key = key
    · have other : ¬ f.key = key := fun equal => apart (same.trans equal.symm)
      simp [same, other]
    · simp [List.filter_cons, same]
  | cons e _ ih => rw [List.filter_cons, List.filter_cons, ih]
  | trans _ _ first second => exact first.trans second

end Last
end StrategyEntry

namespace StrategyRegistry
open StrategyEntry

inductive Call
  | withField (field : String) (s : Strategy)
  | withOperator (field : String) (op : Operator) (s : Strategy)

def Call.entry : Call → StrategyEntry
  | .withField field s => ⟨field, none, s⟩
  | .withOperator field op s => ⟨field, some op, s⟩

def Call.after (r : StrategyRegistry) : Call → StrategyRegistry
  | .withField field s => r.withField field s
  | .withOperator field op s => r.withOperator field op s

def extend (r : StrategyRegistry) (calls : List Call) : StrategyRegistry := calls.foldl Call.after r

def lookup? (r : StrategyRegistry) : String × Option Operator → Option Strategy
  | (field, none) => r.byField.get? field
  | (field, some op) => (r.byOperator op).get? field

theorem resolve?_eq (r : StrategyRegistry) (field : String) (op : Operator) :
    r.resolve? field op = (r.lookup? (field, none)).or (r.lookup? (field, some op)) := rfl

theorem lookup?_withEntry (r : StrategyRegistry) (e : StrategyEntry) (key : String × Option Operator) :
    (r.withEntry e).lookup? key = if e.key = key then some e.strategy else r.lookup? key := by
  obtain ⟨column, operator, strategy⟩ := e
  obtain ⟨field, asked⟩ := key
  cases operator with
  | none =>
    cases asked with
    | none => simp [withEntry, withField, lookup?, StrategyEntry.key, Dict.get?_insert, eq_comm]
    | some op => simp [withEntry, withField, lookup?, StrategyEntry.key]
  | some o =>
    cases asked with
    | none => simp [withEntry, withOperator, lookup?, StrategyEntry.key]
    | some op =>
      by_cases same : op = o
      · subst same
        simp [withEntry, withOperator, lookup?, StrategyEntry.key, Dict.get?_insert, eq_comm]
      · simp [withEntry, withOperator, lookup?, StrategyEntry.key, same, Ne.symm same]

theorem ofEntries_append_singleton (entries : List StrategyEntry) (e : StrategyEntry) :
    ofEntries (entries ++ [e]) = (ofEntries entries).withEntry e := by
  rw [ofEntries, List.foldl_append]
  rfl

theorem lookup?_ofEntries (entries : List StrategyEntry) (key : String × Option Operator) :
    (ofEntries entries).lookup? key = last? key entries := by
  induction entries using List.reverseRecOn with
  | nil =>
    obtain ⟨field, asked⟩ := key
    cases asked <;> rfl
  | append_singleton entries e ih =>
    rw [ofEntries_append_singleton, lookup?_withEntry, last?_append_singleton, ih]

theorem ext_lookup? {r s : StrategyRegistry} (h : ∀ key, r.lookup? key = s.lookup? key) : r = s := by
  obtain ⟨byField, byOperator⟩ := r
  obtain ⟨byField', byOperator'⟩ := s
  have columns : byField = byField' := Dict.ext_get? fun field => h (field, none)
  have operators : byOperator = byOperator' :=
    funext fun op => Dict.ext_get? fun field => h (field, some op)
  rw [columns, operators]

theorem ofEntries_eq_of_reordered {entries others : List StrategyEntry}
    (h : Reordered entries others) : ofEntries entries = ofEntries others := by
  refine ext_lookup? fun key => ?_
  rw [lookup?_ofEntries, lookup?_ofEntries, last?, last?, h.filter_eq]

theorem extend_ofEntries (entries : List StrategyEntry) (calls : List Call) :
    (ofEntries entries).extend calls = ofEntries (entries ++ calls.map Call.entry) := by
  have step (r : StrategyRegistry) (call : Call) : r.withEntry call.entry = call.after r := by
    cases call <;> rfl
  rw [ofEntries, ofEntries, extend, List.foldl_append, List.foldl_map]
  simp only [step]

theorem exists_entry_of_resolve? {entries : List StrategyEntry} {field : String} {op : Operator}
    {s : Strategy} (h : (ofEntries entries).resolve? field op = some s) :
    ∃ e ∈ entries, e.strategy = s := by
  rw [resolve?_eq, lookup?_ofEntries, lookup?_ofEntries] at h
  rcases Option.or_eq_some_iff.1 h with found | ⟨-, found⟩
  · exact mem_of_last? found
  · exact mem_of_last? found

def keys (r : StrategyRegistry) : List (String × Option Operator) :=
  (r.byField.entries.map fun e => (e.1, none)) ++
    Operator.all.flatMap fun op => (r.byOperator op).entries.map fun e => (e.1, some op)

section Keys
variable (r : StrategyRegistry)

theorem length_keys : r.keys.length = r.size := by
  rw [keys, List.length_append, List.length_map, List.length_flatMap]
  simp only [List.length_map]
  rfl

theorem mem_keys {key : String × Option Operator} : key ∈ r.keys ↔ (r.lookup? key).isSome := by
  obtain ⟨field, asked⟩ := key
  cases asked with
  | none => simp [keys, lookup?, Option.isSome_iff_exists, Dict.get?_eq_some_iff]
  | some op => simp [keys, lookup?, Option.isSome_iff_exists, Dict.get?_eq_some_iff, Operator.mem_all]

theorem nodup_keys : r.keys.Nodup := by
  have columns (d : Dict Strategy) (asked : Option Operator) :
      (d.entries.map fun e => (e.1, asked)).Nodup := by
    have apart := d.nodup_keys.map (f := fun field => (field, asked)) fun _ _ same =>
      congrArg Prod.fst same
    rwa [List.map_map] at apart
  have asked {d : Dict Strategy} {o : Option Operator} {key : String × Option Operator}
      (h : key ∈ d.entries.map fun e => (e.1, o)) : key.2 = o := by
    obtain ⟨e, -, rfl⟩ := List.mem_map.1 h
    rfl
  have operators : (Operator.all.flatMap fun op =>
      (r.byOperator op).entries.map fun e => (e.1, some op)).Nodup := by
    have once : Operator.all.Nodup := by decide
    refine List.nodup_flatMap.2 ⟨fun op _ => columns _ (some op), once.imp fun other key h h' => other ?_⟩
    exact Option.some.inj ((asked h).symm.trans (asked h'))
  refine List.nodup_append.2 ⟨columns _ none, operators, ?_⟩
  rintro key h _ h' rfl
  obtain ⟨op, -, h'⟩ := List.mem_flatMap.1 h'
  cases (asked h).symm.trans (asked h')

end Keys

theorem size_ofEntries (entries : List StrategyEntry) :
    (ofEntries entries).size = (entries.map StrategyEntry.key).dedup.length := by
  rw [← length_keys]
  refine List.Perm.length_eq ((List.perm_ext_iff_of_nodup (nodup_keys _) (List.nodup_dedup _)).2 ?_)
  intro key
  rw [mem_keys, lookup?_ofEntries, isSome_last?_iff, List.mem_dedup]

/-- A registry of entries, with what was registered later, answers with the last strategy for the whole
column, or else with the last one for the operator on it. Only the order of entries with the same key
counts, and each key is counted once. -/
theorem resolve?_by_precedence (entries : List StrategyEntry) (calls : List Call) :
    (∀ field op, ((ofEntries entries).extend calls).resolve? field op =
      (last? (field, none) (entries ++ calls.map Call.entry)).or
        (last? (field, some op) (entries ++ calls.map Call.entry))) ∧
    (∀ others later, Reordered (entries ++ calls.map Call.entry) (others ++ later.map Call.entry) →
      (ofEntries others).extend later = (ofEntries entries).extend calls) ∧
    ((ofEntries entries).extend calls).size =
      ((entries ++ calls.map Call.entry).map StrategyEntry.key).dedup.length := by
  simp only [extend_ofEntries]
  refine ⟨fun field op => ?_, fun others later h => (ofEntries_eq_of_reordered h).symm,
    size_ofEntries _⟩
  rw [resolve?_eq, lookup?_ofEntries, lookup?_ofEntries]

end StrategyRegistry

namespace PriorityStrategies
open StrategyEntry StrategyRegistry

def entries : List StrategyEntry :=
  [⟨"priority", none, .identityLookup none⟩, ⟨"priority", some .gt, .weightedRange⟩]

def others : List StrategyEntry :=
  [⟨"priority", some .gt, .weightedRange⟩, ⟨"priority", none, .identityLookup none⟩]

def later : List Call := [.withField "priority" (.identityLookup (some .oro))]

/-- The strategy for the operator is passed over wherever it stands. -/
theorem precedence_priority :
    Reordered (entries ++ later.map Call.entry) (others ++ later.map Call.entry) ∧
    (ofEntries others).extend later = (ofEntries entries).extend later ∧
    ((ofEntries entries).extend later).resolve? "priority" .gt = some (.identityLookup (some .oro)) ∧
    ((ofEntries entries).extend later).size = 2 := by
  have reordered : Reordered (entries ++ later.map Call.entry) (others ++ later.map Call.entry) :=
    .swap (by decide) _
  obtain ⟨resolved, alike, size⟩ := resolve?_by_precedence entries later
  exact ⟨reordered, alike others later reordered, (resolved "priority" .gt).trans (by decide),
    size.trans (by decide)⟩

end PriorityStrategies
end Helpdesk
