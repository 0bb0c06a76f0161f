import Likeness.Proofs.Settings.Ordered
import Mathlib.Data.List.DropRight

namespace Likeness.Settings

namespace Raw

def isTable : Raw → Bool
  | .table _ _ => true
  | _ => false

-- What stands under a key, which is nothing where there is no table.
def field? (key : String) : Raw → Option Raw
  | .table _ fields => lookup key fields
  | _ => none

theorem isTable_merge (a b : Raw) : (merge a b).isTable = b.isTable := by
  cases a with
  | leaf origin l => rfl
  | list origin items => rfl
  | table below under =>
    cases b with
    | leaf origin l => rfl
    | list origin items => rfl
    | table above upper =>
      rw [merge_tables]
      rfl

theorem merge_of_isTable_eq_false (a : Raw) {b : Raw} (hb : b.isTable = false) :
    merge a b = b := by
  cases a with
  | leaf origin l => rfl
  | list origin items => rfl
  | table below under =>
    cases b with
    | leaf origin l => rfl
    | list origin items => rfl
    | table above upper => cases hb

theorem Ordered.field? {r v : Raw} (h : r.Ordered) {key : String} (hv : r.field? key = some v) :
    v.Ordered := by
  cases h with
  | leaf origin l => cases hv
  | list origin hitems => cases hv
  | table origin hkeys hfields => exact hfields _ (mem_of_lookup hv)

theorem field?_merge (key : String) (a : Raw) {b : Raw} (hb : b.isTable = true) (ho : b.Ordered) :
    (merge a b).field? key = Option.merge merge (a.field? key) (b.field? key) := by
  cases ho with
  | leaf origin l => cases hb
  | list origin hitems => cases hb
  | @table above upper hkeys hfields =>
    cases a with
    | leaf origin l => exact (Option.merge_none_left).symm
    | list origin items => exact (Option.merge_none_left).symm
    | table below under =>
      rw [merge_tables]
      exact lookup_mergedFields key under hkeys

-- Some settings in one, each laid over those before it. Without any there is nothing.
def overlaid (rs : List Raw) : Option Raw :=
  rs.foldl (fun under r => Option.merge merge under (some r)) none

theorem overlaid_concat (rs : List Raw) (r : Raw) :
    overlaid (rs ++ [r]) = Option.merge merge (overlaid rs) (some r) := by
  rw [overlaid, List.foldl_append]
  rfl

-- What lies on top decides, but that tables are merged.
theorem exists_overlaid_concat (rs : List Raw) (r : Raw) :
    ∃ m, overlaid (rs ++ [r]) = some m ∧ m.isTable = r.isTable ∧ (r.isTable = false → m = r) := by
  rw [overlaid_concat]
  cases overlaid rs with
  | none => exact ⟨r, rfl, rfl, fun _ => rfl⟩
  | some m => exact ⟨merge m r, rfl, isTable_merge m r, merge_of_isTable_eq_false m⟩

theorem overlaid_append_toList (rs : List Raw) (r : Option Raw) :
    overlaid (rs ++ r.toList) = Option.merge merge (overlaid rs) r := by
  cases r with
  | none => rw [Option.toList_none, List.append_nil, Option.merge_none_right]
  | some r => exact overlaid_concat rs r

-- Only the tables at the end count for what stands under a key.
theorem field?_overlaid (key : String) {rs : List Raw} (h : ∀ r ∈ rs, r.Ordered) :
    (overlaid rs).bind (field? key) =
      overlaid ((rs.rtakeWhile isTable).filterMap (field? key)) := by
  induction rs using List.reverseRecOn with
  | nil => rfl
  | append_singleton rs r ih =>
    have hr := h r (List.mem_append_right _ List.mem_cons_self)
    have hrs := ih fun s hs => h s (List.mem_append_left _ hs)
    cases htable : r.isTable with
    | false =>
      obtain ⟨m, hm, -, hlast⟩ := exists_overlaid_concat rs r
      obtain rfl := hlast htable
      rw [hm, List.rtakeWhile_concat_neg _ _ _ (by rw [htable]; exact Bool.false_ne_true)]
      cases m with
      | leaf origin l => rfl
      | list origin items => rfl
      | table origin fields => cases htable
    | true =>
      have hlast : [r].filterMap (field? key) = (r.field? key).toList := by
        rw [List.filterMap_cons]
        cases r.field? key <;> rfl
      rw [overlaid_concat, List.rtakeWhile_concat_pos _ _ _ htable, List.filterMap_append, hlast,
        overlaid_append_toList, ← hrs]
      cases overlaid rs with
      | none => exact (Option.merge_none_left).symm
      | some m => exact field?_merge key m htable hr

end Raw

-- The way to a setting: the keys of the tables on it, and for each key which field of its table it
-- is, for lists that are read as tables.
abbrev Way := List (String × Nat)

namespace Raw

-- What stands at the end of a way. Lists are read as tables.
def found? : Way → Raw → Option Raw
  | [], r => some r
  | (_, place) :: way, .list _ items => items[place]?.bind (found? way)
  | (key, _) :: way, r => (r.field? key).bind (found? way)

-- What stands at the end of a way that leads through tables only.
def keyed? : Way → Raw → Option Raw
  | [], r => some r
  | (key, _) :: way, r => (r.field? key).bind (keyed? way)

-- What some layers come to at the end of a way. A list in the place of a table on the way decides
-- if no layer after it has anything there. Otherwise only the layers with tables after it count.
def settled : Way → List Raw → Option Raw
  | [], rs => rs.getLast?
  | (key, place) :: way, rs =>
    match rs.getLast? with
    | some (.list _ items) => items[place]?.bind (found? way)
    | _ => settled way ((rs.rtakeWhile isTable).filterMap (field? key))

theorem ordered_filterMap_field? (key : String) {rs : List Raw} (h : ∀ r ∈ rs, r.Ordered) :
    ∀ v ∈ (rs.rtakeWhile isTable).filterMap (field? key), v.Ordered := by
  intro v hv
  obtain ⟨r, hr, hfield⟩ := List.mem_filterMap.mp hv
  exact (h r ((List.rtakeWhile_suffix _ _).sublist.subset hr)).field? hfield

-- What stands in the layers laid over one another is what they come to, but that tables are merged.
theorem settled_of_overlaid (way : Way) {rs : List Raw} (h : ∀ r ∈ rs, r.Ordered) :
    (∀ v, (overlaid rs).bind (found? way) = some v → v.isTable = false →
      settled way rs = some v) ∧
    ((overlaid rs).bind (found? way) = none → settled way rs = none) := by
  induction way generalizing rs with
  | nil =>
    cases rs using List.reverseRecOn with
    | nil => exact ⟨fun v hv => (by cases hv), fun _ => rfl⟩
    | append_singleton rs r =>
      obtain ⟨m, hm, htable, hlast⟩ := exists_overlaid_concat rs r
      rw [hm, settled, List.getLast?_concat]
      refine ⟨fun v hv hnot => ?_, fun hnone => by cases hnone⟩
      obtain rfl : m = v := Option.some.inj hv
      rw [hlast (htable ▸ hnot)]
  | cons step way ih =>
    obtain ⟨key, place⟩ := step
    have hstep := ih (ordered_filterMap_field? key h)
    rw [← field?_overlaid key h] at hstep
    cases rs using List.reverseRecOn with
    | nil => exact hstep
    | append_singleton rs r =>
      obtain ⟨m, hm, htable, hlast⟩ := exists_overlaid_concat rs r
      rw [hm] at hstep ⊢
      cases r with
      | leaf origin l =>
        obtain rfl := hlast rfl
        rw [settled, List.getLast?_concat]
        exact hstep
      | list origin items =>
        obtain rfl := hlast rfl
        rw [settled, List.getLast?_concat]
        exact ⟨fun v hv _ => hv, fun hnone => hnone⟩
      | table origin fields =>
        rw [settled, List.getLast?_concat]
        cases m with
        | leaf origin l => cases htable
        | list origin items => cases htable
        | table above upper => exact hstep

-- Whether a way leads through tables only, as far as it leads.
def throughTables : Way → Raw → Bool
  | [], _ => true
  | (key, _) :: way, r => r.isTable && (r.field? key).all (throughTables way)

-- What layers that are tables come to is what stands there under the first key comes to.
theorem settled_of_isTable (key : String) (place : Nat) (way : Way) {rs : List Raw}
    (h : ∀ r ∈ rs, r.isTable = true) :
    settled ((key, place) :: way) rs = settled way (rs.filterMap (field? key)) := by
  have htables : rs.rtakeWhile isTable = rs := List.rtakeWhile_eq_self_iff.mpr h
  cases rs using List.reverseRecOn with
  | nil => rw [settled, htables]; rfl
  | append_singleton rs r =>
    have hr := h r (List.mem_append_right _ List.mem_cons_self)
    rw [settled, List.getLast?_concat, htables]
    cases r with
    | leaf origin l => cases hr
    | list origin items => cases hr
    | table origin fields => rfl

-- Where all layers have tables on the way, the last one that has anything at its end decides.
theorem settled_eq_getLast? (way : Way) {rs : List Raw}
    (h : ∀ r ∈ rs, r.throughTables way = true) :
    settled way rs = (rs.filterMap (keyed? way)).getLast? := by
  induction way generalizing rs with
  | nil =>
    rw [settled, show keyed? [] = some from rfl, List.filterMap_some]
  | cons step way ih =>
    obtain ⟨key, place⟩ := step
    have hstep : ∀ r ∈ rs, r.isTable = true ∧ (r.field? key).all (throughTables way) = true :=
      fun r hr => Bool.and_eq_true_iff.mp (h r hr)
    have hinside : ∀ v ∈ rs.filterMap (field? key), v.throughTables way = true := by
      intro v hv
      obtain ⟨r, hr, hfield⟩ := List.mem_filterMap.mp hv
      have hall := (hstep r hr).2
      rwa [hfield] at hall
    rw [settled_of_isTable key place way fun r hr => (hstep r hr).1, ih hinside,
      List.filterMap_filterMap]
    rfl

end Raw

end Likeness.Settings
