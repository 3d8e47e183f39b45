import Helpdesk.Dict
import Mathlib.Data.List.Induction
import Mathlib.Data.List.Nodup

/-! Maps and their entries. A map holds what a lookup finds in it (`get?_eq_some_iff`), and nothing else:
maps that are looked up alike are equal (`ext_get?`). Built from a list of entries it finds the last entry
for a key (`get?_ofList`), and built from its own entries it is itself (`ofList_entries`). -/

namespace Helpdesk

theorem lookup_eq_some_iff_mem {α : Type} {entries : List (String × α)} {key : String} {v : α}
    (nodup : (entries.map Prod.fst).Nodup) : entries.lookup key = some v ↔ (key, v) ∈ entries := by
  induction entries with
  | nil => simp
  | cons e entries ih =>
    obtain ⟨k, w⟩ := e
    obtain ⟨missing, nodup⟩ := List.nodup_cons.1 nodup
    by_cases same : key = k
    · subst same
      have others : (key, v) ∉ entries := fun h => missing (List.mem_map.2 ⟨_, h, rfl⟩)
      simp [others, eq_comm]
    · simp [List.lookup_cons, beq_false_of_ne same, same, ih nodup]

theorem insertEntry_of_lt {α : Type} {key : String} (value : α) {entries : List (String × α)}
    (behind : ∀ e ∈ entries, e.1 < key) :
    insertEntry key value entries = entries ++ [(key, value)] := by
  induction entries with
  | nil => rfl
  | cons head rest ih =>
    obtain ⟨first, others⟩ := List.forall_mem_cons.1 behind
    have notBefore : ¬ key < head.1 := String.lt_asymm first
    have other : ¬ key = head.1 := fun same => String.lt_irrefl key (by rwa [← same] at first)
    rw [insertEntry, if_neg notBefore, if_neg other, ih others, List.cons_append]

namespace Dict
variable {α : Type} {d : Dict α} {key : String} {v : α}

theorem nodup_keys (d : Dict α) : (d.entries.map Prod.fst).Nodup := by
  refine List.pairwise_map.2 (d.increasing.imp fun {a b} less same => ?_)
  rw [same] at less
  exact String.lt_irrefl b.1 less

theorem get?_eq_some_iff : d.get? key = some v ↔ (key, v) ∈ d.entries :=
  lookup_eq_some_iff_mem d.nodup_keys

theorem mem_of_get? (h : d.get? key = some v) : (key, v) ∈ d.entries := get?_eq_some_iff.1 h

theorem ext_get? {d e : Dict α} (h : ∀ key, d.get? key = e.get? key) : d = e := by
  have members (x : String × α) : x ∈ d.entries ↔ x ∈ e.entries := by
    rw [← get?_eq_some_iff, h, get?_eq_some_iff]
  have perm : d.entries.Perm e.entries :=
    (List.perm_ext_iff_of_nodup d.nodup_keys.of_map e.nodup_keys.of_map).2 members
  refine ext_entries (perm.eq_of_pairwise (fun a b _ _ less more => ?_) d.increasing e.increasing)
  exact absurd more (String.lt_asymm less)

theorem get?_ofList (entries : List (String × α)) (key : String) :
    (ofList entries).get? key = entries.reverse.lookup key := by
  induction entries using List.reverseRecOn with
  | nil => rfl
  | append_singleton entries e ih =>
    have put : ofList (entries ++ [e]) = (ofList entries).insert e.1 e.2 := by
      rw [ofList, List.foldl_append]
      rfl
    rw [put, get?_insert, List.reverse_append, List.reverse_singleton, List.singleton_append,
      List.lookup_cons, ih]
    by_cases same : key = e.1
    · simp [same]
    · simp [same, beq_false_of_ne same]

theorem entries_foldl_insert (d : Dict α) {entries : List (String × α)}
    (increasing : Increasing (d.entries ++ entries)) :
    (entries.foldl (fun d e => d.insert e.1 e.2) d).entries = d.entries ++ entries := by
  induction entries generalizing d with
  | nil => rw [List.foldl_nil, List.append_nil]
  | cons e entries ih =>
    have before : ∀ k ∈ d.entries, k.1 < e.1 := fun k hk =>
      (List.pairwise_append.1 increasing).2.2 k hk e List.mem_cons_self
    have put : (d.insert e.1 e.2).entries = d.entries ++ [e] := insertEntry_of_lt e.2 before
    rw [List.append_cons, ← put] at increasing
    rw [List.foldl_cons, ih _ increasing, put, ← List.append_cons]

theorem ofList_entries (d : Dict α) : ofList d.entries = d :=
  ext_entries (entries_foldl_insert empty d.increasing)

end Dict
end Helpdesk
