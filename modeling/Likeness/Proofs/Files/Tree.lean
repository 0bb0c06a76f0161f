import Likeness.Files.Tree
import Likeness.Proofs.Files.Path
import Mathlib.Data.List.Nodup

namespace Likeness.Files

namespace Entry

-- Trees whose directories have entries with names, each of which is there once.
inductive Proper : Entry → Prop where
  | file (text : Option String) : Proper (.file text)
  | link (target : String) : Proper (.link target)
  | directory {entries : List (String × Entry)} (hnodup : (entries.map (·.1)).Nodup)
    (hnames : ∀ e ∈ entries, IsName e.1) (hinside : ∀ e ∈ entries, Proper e.2) :
    Proper (.directory entries)

-- What stands at the end of some steps down from an entry.
def at? : List String → Entry → Option Entry
  | [], e => some e
  | name :: steps, .directory entries => (lookup name entries).bind (at? steps)
  | _ :: _, _ => none

section Lookup

variable {name : String} {e : Entry} {entries others : List (String × Entry)}

theorem mem_of_lookup (h : lookup name entries = some e) : (name, e) ∈ entries := by
  induction entries with
  | nil => cases h
  | cons first rest ih =>
    obtain ⟨n, first⟩ := first
    unfold lookup at h
    split at h
    · rename_i hn
      obtain rfl := Option.some.inj h
      exact hn ▸ List.mem_cons_self
    · exact List.mem_cons_of_mem _ (ih h)

end Lookup

section Sorted

variable {entries : List (String × Entry)}

theorem sortedEntries_eq_map (entries : List (String × Entry)) :
    sortedEntries entries = entries.map fun e => (e.1, e.2.sorted) := by
  induction entries with
  | nil => rfl
  | cons e rest ih => exact congrArg (_ :: ·) ih

-- The entries of a sorted directory are the sorted entries in some order.
theorem exists_sorted_directory (entries : List (String × Entry)) :
    ∃ others, sorted (.directory entries) = .directory others ∧
      others.Perm (entries.map fun e => (e.1, e.2.sorted)) := by
  refine ⟨_, by rw [sorted], ?_⟩
  rw [sortedEntries_eq_map]
  exact List.mergeSort_perm _ _

theorem map_fst_map_sorted (entries : List (String × Entry)) :
    (entries.map fun e => (e.1, e.2.sorted)).map (·.1) = entries.map (·.1) := by
  rw [List.map_map]
  rfl

theorem Proper.sorted {e : Entry} (h : e.Proper) : e.sorted.Proper := by
  induction h with
  | file text => exact .file text
  | link target => exact .link target
  | @directory entries hnodup hnames hinside ih =>
    obtain ⟨others, hsorted, hperm⟩ := exists_sorted_directory entries
    rw [hsorted]
    refine .directory ?_ (fun e he => ?_) (fun e he => ?_)
    · rw [(hperm.map (·.1)).nodup_iff, map_fst_map_sorted]
      exact hnodup
    · obtain ⟨e', he', rfl⟩ := List.mem_map.mp (hperm.subset he)
      exact hnames e' he'
    · obtain ⟨e', he', rfl⟩ := List.mem_map.mp (hperm.subset he)
      exact ih e' he'

end Sorted

-- The same tree with the entries of its directories in other orders.
inductive Relisted : Entry → Entry → Prop where
  | file (text : Option String) : Relisted (.file text) (.file text)
  | link (target : String) : Relisted (.link target) (.link target)
  | directory {pairs : List (String × Entry × Entry)} {others : List (String × Entry)}
    (hinside : ∀ p ∈ pairs, Relisted p.2.1 p.2.2)
    (hperm : others.Perm (pairs.map fun p => (p.1, p.2.2))) :
    Relisted (.directory (pairs.map fun p => (p.1, p.2.1))) (.directory others)

theorem Relisted.of_perm {others : List (String × Entry)}
    (hsame : ∀ e ∈ entries, Relisted e.2 e.2) (hperm : others.Perm entries) :
    Relisted (.directory entries) (.directory others) := by
  have hpairs (f : String × Entry × Entry → String × Entry)
      (hf : ∀ e : String × Entry, f (e.1, e.2, e.2) = e) :
      (entries.map fun e => (e.1, e.2, e.2)).map f = entries := by
    rw [List.map_map]
    exact (List.map_congr_left fun e _ => hf e).trans (List.map_id _)
  have hinside : ∀ p ∈ entries.map fun e => (e.1, e.2, e.2), Relisted p.2.1 p.2.2 := by
    intro p hp
    obtain ⟨e, he, rfl⟩ := List.mem_map.mp hp
    exact hsame e he
  have hothers :
      others.Perm ((entries.map fun e => (e.1, e.2, e.2)).map fun p => (p.1, p.2.2)) := by
    rw [hpairs _ fun e => rfl]
    exact hperm
  have hrelisted := Relisted.directory hinside hothers
  rwa [hpairs _ fun e => rfl] at hrelisted

mutual

theorem Relisted.refl (e : Entry) : e.Relisted e := by
  cases e with
  | file text => exact .file text
  | link target => exact .link target
  | directory entries => exact .of_perm (relisted_entries entries) (List.Perm.refl _)

theorem relisted_entries (entries : List (String × Entry)) :
    ∀ e ∈ entries, Relisted e.2 e.2 := by
  cases entries with
  | nil => exact fun e he => absurd he List.not_mem_nil
  | cons e rest => exact List.forall_mem_cons.mpr ⟨Relisted.refl e.2, relisted_entries rest⟩

end

end Entry

namespace Spot

-- The same spot in the tree with sorted directories.
def sorted (s : Spot) : Spot := ⟨s.entry.sorted, s.outer.map Entry.sorted, s.links⟩

structure Proper (s : Spot) : Prop where
  entry : s.entry.Proper
  outer : ∀ e ∈ s.outer, e.Proper

-- Whether two ways lead to the same spot, or nowhere for the same reason, where the directories of
-- the second tree are sorted.
def Alike (r r' : Except Missing Spot) : Prop :=
  r' = r.map sorted ∧ ∀ s, r = .ok s → s.Proper

end Spot

namespace Disk

-- The same files with sorted directories.
def sorted (d : Disk) : Disk := { d with root := d.root.sorted }

variable {d : Disk}

theorem pathSteps_of_isName {name : String} (h : IsName name) : pathSteps name = [name] := by
  unfold pathSteps
  rw [splitSlashes_of_notMem h.no_slash]
  split
  · rename_i heq
    exact absurd (List.cons.inj heq).1 h.ne_empty
  · rfl

-- A name leads to the directory of that name in the current one.
theorem find_of_isName {name : String} (h : IsName name) (follow : Bool) (hcurrent : d.current = [])
    {entries inside : List (String × Entry)} (hroot : d.root = .directory entries)
    (hlookup : Entry.lookup name entries = some (.directory inside)) :
    d.find follow name = .ok ⟨.directory inside, [d.root], linkLimit⟩ := by
  have hrelative : name.startsWith "/" = false := by
    rw [← Bool.not_eq_true, startsWith_slash, beq_iff_eq]
    exact fun hhead => h.no_slash (List.mem_of_mem_head? hhead)
  unfold find
  rw [if_neg h.ne_empty, hrelative, hcurrent, pathSteps_of_isName h, hroot]
  dsimp only [Bool.false_eq_true, if_false, List.nil_append]
  unfold Spot.goOn
  simp [h.ne_empty, h.ne_point, h.ne_points, hlookup, Spot.goOn]

end Disk

end Likeness.Files
