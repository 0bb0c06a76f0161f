import Likeness.Proofs.Resources.Walk
import Likeness.Proofs.Similarity.Symmetric
import Mathlib.Data.List.Lex

namespace Likeness

section Lexicographic

variable {β : Type} [LinearOrder β] {chain middle last : List β}

-- What starts with a chain does not come before it.
theorem not_lex_of_isPrefix (h : chain <+: last) : ¬List.Lex (· < ·) last chain := by
  obtain ⟨more, rfl⟩ := h
  induction chain with
  | nil =>
    intro hlex
    cases hlex
  | cons b chain ih =>
    rw [List.cons_append, List.lex_cons_iff]
    exact ih

-- What lies between a chain and something that starts with it starts with it too.
theorem isPrefix_of_between (hlow : List.Lex (· < ·) chain middle)
    (hhigh : List.Lex (· < ·) middle last) (h : chain <+: last) : chain <+: middle := by
  obtain ⟨more, rfl⟩ := h
  induction chain generalizing middle with
  | nil => exact List.nil_prefix
  | cons b chain ih =>
    cases hlow with
    | cons hlow =>
      rw [List.cons_append, List.lex_cons_iff] at hhigh
      exact (List.prefix_cons_inj b).mpr (ih hlow hhigh)
    | rel hlt =>
      cases hhigh with
      | cons => exact absurd hlt (lt_irrefl b)
      | rel hlt' => exact absurd hlt hlt'.not_gt

-- Of what comes after a chain in ascending order, that which starts with it comes first.
theorem exists_split {rest : List (List β)} (hsorted : rest.Pairwise (List.Lex (· < ·)))
    (hafter : ∀ c ∈ rest, List.Lex (· < ·) chain c) :
    ∃ below after, rest = below ++ after ∧ (∀ c ∈ below, chain <+: c) ∧
      ∀ c ∈ after, ¬chain <+: c := by
  induction rest with
  | nil => exact ⟨[], [], rfl, by simp, by simp⟩
  | cons next rest ih =>
    obtain ⟨hnext, hsorted⟩ := List.pairwise_cons.mp hsorted
    obtain ⟨hbetween, hafter⟩ := List.forall_mem_cons.mp hafter
    by_cases hstarts : chain <+: next
    · obtain ⟨below, after, rfl, hbelow, hother⟩ := ih hsorted hafter
      exact ⟨next :: below, after, rfl, List.forall_mem_cons.mpr ⟨hstarts, hbelow⟩, hother⟩
    · refine ⟨[], next :: rest, rfl, by simp, List.forall_mem_cons.mpr ⟨hstarts, ?_⟩⟩
      exact fun c hc h => hstarts (isPrefix_of_between hbetween (hnext c hc) h)

-- So a chain is followed at once by all those that start with it.
theorem exists_block {chains : List (List β)} (hsorted : chains.Pairwise (List.Lex (· < ·)))
    (hchain : chain ∈ chains) :
    ∃ before below after, chains = before ++ chain :: (below ++ after) ∧
      (∀ c ∈ below, chain <+: c) ∧ ∀ c ∈ before ++ after, ¬chain <+: c := by
  obtain ⟨before, rest, rfl⟩ := List.append_of_mem hchain
  obtain ⟨-, hrest, hbefore⟩ := List.pairwise_append.mp hsorted
  obtain ⟨hfirst, hrest⟩ := List.pairwise_cons.mp hrest
  obtain ⟨below, after, rfl, hbelow, hother⟩ := exists_split hrest hfirst
  refine ⟨before, below, after, rfl, hbelow, fun c hc => ?_⟩
  rcases List.mem_append.mp hc with hc | hc
  · exact fun h => not_lex_of_isPrefix h (hbefore c hc chain List.mem_cons_self)
  · exact hother c hc

end Lexicographic

namespace Json.Value

variable {fields : List (String × Value)}

theorem Ascending.nodup_keys (h : (Value.object fields).Ascending) : (fields.map (·.1)).Nodup := by
  cases h with | object _ hkeys _ =>
  exact hkeys.imp ne_of_lt

theorem Ascending.of_mem (h : (Value.object fields).Ascending) {field : String × Value}
    (hfield : field ∈ fields) : field.2.Ascending := by
  cases h with | object _ _ hfields =>
  exact hfields field hfield

-- What follows after some keys follows from the value they lead to.
theorem follow_append (chain more : List String) (v : Value) :
    v.follow (chain ++ more) = (v.follow chain).bind (follow more) := by
  induction chain generalizing v with
  | nil => rfl
  | cons key rest ih =>
    cases v with
    | object fields =>
      rw [List.cons_append, follow, follow, Option.bind_assoc]
      exact Option.bind_congr fun w _ => ih w
    | _ => rfl

end Json.Value

namespace Resources

open Json Similarity

-- What a walk meets at the end of a chain of keys: the value there, and after it the note that an
-- object is too deep to go on.
def met (file : Files.Path) (path : String) (depth : ℕ) (v : Value) (chain : List String) :
    List Visit :=
  match v.follow chain with
  | none => []
  | some w =>
    .place (.under file path chain w) ::
      if depthLimit < depth + chain.length ∧ Kind.ofValue w = .object then
        [.tooDeep (joinChain path chain) file]
      else []

section Chains

variable (file : Files.Path) (path : String) (depth : ℕ)

theorem mem_chainsFields_iff (chain : List String) (fields : List (String × Value)) :
    chain ∈ chainsFields depth fields ↔ ∃ field ∈ fields, chain = [field.1] ∨
      ∃ below ∈ chainsBelow (depth + 1) field.2, chain = field.1 :: below := by
  induction fields with
  | nil => simp [chainsFields]
  | cons field rest ih =>
    rw [chainsFields, List.mem_cons, List.mem_append, ih, List.mem_map, List.exists_mem_cons_iff,
      or_assoc]
    simp only [eq_comm]

-- The chains of a walk are those that lead somewhere and are not too long.
theorem mem_chainsBelow_iff {v : Value} (hv : v.Ascending) (chain : List String) :
    chain ∈ chainsBelow depth v ↔ chain ≠ [] ∧ depth + chain.length ≤ depthLimit + 1 ∧
      ∃ w, v.follow chain = some w := by
  induction v using Value.inductionOnParts generalizing depth chain with
  | object fields ih =>
    have hfollow := Value.follow_cons_iff hv.nodup_keys
    rw [chainsBelow]
    split
    · rename_i hdeep
      simp only [List.not_mem_nil, false_iff, not_and]
      intro hne hlength
      have hpos := List.length_pos_iff.mpr hne
      omega
    rename_i hdepth
    rw [mem_chainsFields_iff]
    constructor
    · rintro ⟨⟨key, v⟩, hfield, rfl | ⟨below, hbelow, rfl⟩⟩
      · refine ⟨List.cons_ne_nil _ _, ?_, v, (hfollow key [] v).mpr ⟨v, hfield, rfl⟩⟩
        rw [List.length_singleton]
        omega
      · obtain ⟨-, hlength, w, hw⟩ := (ih _ hfield _ (hv.of_mem hfield) below).mp hbelow
        refine ⟨List.cons_ne_nil _ _, ?_, w, (hfollow key below w).mpr ⟨v, hfield, hw⟩⟩
        rw [List.length_cons]
        omega
    · rintro ⟨hne, hlength, w, hw⟩
      obtain ⟨key, rest, rfl⟩ := List.exists_cons_of_ne_nil hne
      obtain ⟨v, hfield, hrest⟩ := (hfollow key rest w).mp hw
      rw [List.length_cons] at hlength
      refine ⟨(key, v), hfield, ?_⟩
      cases rest with
      | nil => exact .inl rfl
      | cons next rest =>
        refine .inr ⟨next :: rest, ?_, rfl⟩
        exact (ih _ hfield _ (hv.of_mem hfield) _).mpr ⟨List.cons_ne_nil _ _, by omega, w, hrest⟩
  | _ =>
    simp only [chainsBelow, List.not_mem_nil, false_iff]
    rintro ⟨hne, -, w, hw⟩
    obtain ⟨key, rest, rfl⟩ := List.exists_cons_of_ne_nil hne
    cases hw

-- A walk takes the chains in the order of a dictionary.
theorem pairwise_chainsFields {fields : List (String × Value)}
    (hkeys : (fields.map (·.1)).Pairwise (· < ·))
    (hfields : ∀ field ∈ fields, (chainsBelow (depth + 1) field.2).Pairwise (List.Lex (· < ·))) :
    (chainsFields depth fields).Pairwise (List.Lex (· < ·)) := by
  induction fields with
  | nil => exact List.Pairwise.nil
  | cons field rest ih =>
    obtain ⟨key, v⟩ := field
    obtain ⟨hfirst, hkeys⟩ := List.pairwise_cons.mp hkeys
    obtain ⟨hbelow, hfields⟩ := List.forall_mem_cons.mp hfields
    -- all chains of later fields start with a later key
    have hlater {chain other : List String} (hother : other ∈ chainsFields depth rest) :
        List.Lex (· < ·) (key :: chain) other := by
      obtain ⟨next, hnext, hhead⟩ := exists_head_of_mem_chainsFields depth rest other hother
      obtain ⟨more, rfl⟩ := List.head?_eq_some_iff.mp hhead
      exact .rel (hfirst next hnext)
    rw [chainsFields, List.pairwise_cons, List.pairwise_append, List.pairwise_map]
    refine ⟨fun chain hchain => ?_, hbelow.imp .cons, ih hkeys hfields, fun chain hchain => ?_⟩
    · rcases List.mem_append.mp hchain with hchain | hchain
      · obtain ⟨below, hmem, rfl⟩ := List.mem_map.mp hchain
        obtain ⟨next, more, rfl⟩ :=
          List.exists_cons_of_ne_nil (ne_nil_of_mem_chainsBelow _ _ _ hmem)
        exact .cons .nil
      · exact hlater hchain
    · obtain ⟨below, -, rfl⟩ := List.mem_map.mp hchain
      exact fun other hother => hlater hother

theorem pairwise_chainsBelow {v : Value} (hv : v.Ascending) :
    (chainsBelow depth v).Pairwise (List.Lex (· < ·)) := by
  induction v using Value.inductionOnParts generalizing depth with
  | object fields ih =>
    rw [chainsBelow]
    split
    · exact List.Pairwise.nil
    · have hfields : ∀ field ∈ fields,
          (chainsBelow (depth + 1) field.2).Pairwise (List.Lex (· < ·)) :=
        fun field hfield => ih field hfield (depth + 1) (hv.of_mem hfield)
      cases hv with | object _ hkeys _ =>
      exact pairwise_chainsFields depth hkeys hfields
  | _ => exact List.Pairwise.nil

-- What a walk meets below a field is met from the object the field is in.
theorem met_cons {fields : List (String × Value)} (hkeys : (fields.map (·.1)).Nodup)
    {field : String × Value} (hfield : field ∈ fields) (chain : List String) :
    met file path depth (.object fields) (field.1 :: chain) =
      met file (joinKey path field.1) (depth + 1) field.2 chain := by
  have hlookup := (lookup_eq_some_iff hkeys).mpr hfield
  have hlength : depth + (field.1 :: chain).length = depth + 1 + chain.length := by
    rw [List.length_cons]
    omega
  rw [met, met, Value.follow, hlookup, Option.bind_some, hlength]
  rfl

-- A walk meets what is at the end of its chains, one after the other.
theorem visitFields_eq {all fields : List (String × Value)} (hkeys : (all.map (·.1)).Nodup)
    (hsub : fields ⊆ all)
    (hfields : ∀ field ∈ fields, ∀ path, visitBelow file path (depth + 1) field.2 =
      (met file path (depth + 1) field.2 []).drop 1 ++
        (chainsBelow (depth + 1) field.2).flatMap (met file path (depth + 1) field.2)) :
    visitFields file path depth fields =
      (chainsFields depth fields).flatMap (met file path depth (.object all)) := by
  induction fields with
  | nil => rfl
  | cons field rest ih =>
    obtain ⟨hfield, hsub⟩ := List.cons_subset.mp hsub
    obtain ⟨hbelow, hfields⟩ := List.forall_mem_cons.mp hfields
    have hfirst : met file path depth (.object all) [field.1] =
        .place (.under file path [field.1] field.2) ::
          (met file (joinKey path field.1) (depth + 1) field.2 []).drop 1 := by
      rw [met_cons file path depth hkeys hfield]
      rfl
    have hrest : ((chainsBelow (depth + 1) field.2).map (field.1 :: ·)).flatMap
          (met file path depth (.object all)) =
        (chainsBelow (depth + 1) field.2).flatMap
          (met file (joinKey path field.1) (depth + 1) field.2) := by
      rw [List.flatMap_map]
      exact congrArg (List.flatMap · _) (funext fun chain =>
        met_cons file path depth hkeys hfield chain)
    rw [visitFields, chainsFields, List.flatMap_cons, List.flatMap_append, hfirst, hrest,
      hbelow (joinKey path field.1), ih hsub hfields, List.cons_append, List.append_assoc]
    rfl

theorem visitBelow_eq {v : Value} (hv : v.Ascending) :
    visitBelow file path depth v = (met file path depth v []).drop 1 ++
      (chainsBelow depth v).flatMap (met file path depth v) := by
  induction v using Value.inductionOnParts generalizing path depth with
  | object fields ih =>
    rw [visitBelow, chainsBelow]
    split
    · rename_i hdeep
      simp [met, Value.follow, Kind.ofValue, hdeep, joinChain]
    · rename_i hdepth
      rw [visitFields_eq file path depth hv.nodup_keys (List.Subset.refl _)
        fun field hfield path => ih field hfield path (depth + 1) (hv.of_mem hfield)]
      simp [met, Value.follow, hdepth]
  | _ => simp [visitBelow, chainsBelow, met, Value.follow, Kind.ofValue]

end Chains

namespace Document

-- The keys that lead to the values of a document, in the order of the walk.
def chains (d : Document) : List (List String) := chainsBelow 1 d.value

-- Those that lead to an object the walk does not go into.
def deepChains (d : Document) : List (List String) :=
  d.chains.filter fun chain =>
    chain.length = depthLimit ∧ (d.value.follow chain).map Kind.ofValue = some .object

variable {d : Document}

theorem mem_chains_iff (hd : d.value.Ascending) (chain : List String) :
    chain ∈ d.chains ↔ chain ≠ [] ∧ chain.length ≤ depthLimit ∧
      ∃ w, d.value.follow chain = some w := by
  rw [chains, mem_chainsBelow_iff 1 hd]
  refine and_congr_right fun _ => and_congr_left fun _ => ?_
  omega

theorem mem_deepChains_iff (hd : d.value.Ascending) (chain : List String) :
    chain ∈ d.deepChains ↔ chain.length = depthLimit ∧
      ∃ fields, d.value.follow chain = some (.object fields) := by
  rw [deepChains, List.mem_filter, mem_chains_iff hd, decide_eq_true_eq]
  constructor
  · rintro ⟨⟨-, -, w, hw⟩, hlength, hkind⟩
    rw [hw, Option.map_some, Option.some.injEq] at hkind
    cases w <;> cases hkind
    exact ⟨hlength, _, hw⟩
  · rintro ⟨hlength, fields, hw⟩
    refine ⟨⟨?_, hlength.le, _, hw⟩, hlength, by rw [hw]; rfl⟩
    rintro rfl
    cases hlength

theorem visits_eq (hd : d.value.Ascending) :
    d.visits = d.chains.flatMap (met d.file "" 1 d.value) := by
  rw [visits, chains, visitBelow_eq d.file "" 1 hd]
  simp [met, Value.follow, depthLimit]

-- The place at the end of each chain.
theorem places_eq (hd : d.value.Ascending) : d.places = d.chains.filterMap fun chain =>
    (d.value.follow chain).map (.under d.file "" chain) := by
  rw [places, visits_eq hd, List.filterMap_flatMap, List.filterMap_eq_flatMap_toList]
  refine List.flatMap_congr fun chain _ => ?_
  rw [met]
  cases d.value.follow chain with
  | none => rfl
  | some w =>
    dsimp only
    split <;> rfl

end Document

-- The note on an object that the walk does not go into.
def tooDeepNote (file : Files.Path) (path : String) : String :=
  s!"Key path {path} in {file.text} is nested deeper than {depthLimit}, not descending"

def Visit.note? : Visit → Option String
  | .place _ => none
  | .tooDeep path file => some (tooDeepNote file path)

-- A note for each chain that leads to an object the walk does not go into.
theorem Document.notes_eq {d : Document} (hd : d.value.Ascending) :
    d.visits.filterMap Visit.note? =
      d.deepChains.map fun chain => tooDeepNote d.file (joinChain "" chain) := by
  rw [visits_eq hd, List.filterMap_flatMap, deepChains, ← List.filterMap_eq_filter,
    List.map_filterMap, List.filterMap_eq_flatMap_toList]
  refine List.flatMap_congr fun chain hchain => ?_
  obtain ⟨-, hlength, w, hw⟩ := (mem_chains_iff hd chain).mp hchain
  have hdeep : depthLimit < 1 + chain.length ↔ chain.length = depthLimit := by omega
  have hkind : (d.value.follow chain).map Kind.ofValue = some .object ↔
      Kind.ofValue w = .object := by rw [hw, Option.map_some, Option.some.injEq]
  rw [met, hw]
  simp only [hdeep, Option.guard, decide_eq_true_eq, hkind]
  split_ifs <;> rfl

theorem warnings_eq (ds : List Document) :
    warnings ds = ds.flatMap fun d => d.visits.filterMap Visit.note? := by
  rw [warnings, List.filterMap_flatMap]
  rfl

-- The values that are compared are, document by document, those that some keys lead to from an
-- object to the next one, at most 64 of them. Each chain of keys comes once, in the order of a
-- dictionary: a value right before all that is below it. Lists are not gone into, and there is one
-- note for each object that 64 keys lead to.
theorem catalogue_in_order (ds : List Document) (hds : ∀ d ∈ ds, d.value.Ascending) :
    (catalogue ds = ds.flatMap fun d => d.chains.filterMap fun chain =>
      (d.value.follow chain).map (.under d.file "" chain)) ∧
    (warnings ds = ds.flatMap fun d =>
      d.deepChains.map fun chain => tooDeepNote d.file (joinChain "" chain)) ∧
    ∀ d ∈ ds,
      (∀ chain, chain ∈ d.chains ↔
        chain ≠ [] ∧ chain.length ≤ 64 ∧ ∃ w, d.value.follow chain = some w) ∧
      d.chains.Pairwise (List.Lex (· < ·)) ∧
      (∀ chain ∈ d.chains, ∃ before below after,
        d.chains = before ++ chain :: (below ++ after) ∧ (∀ c ∈ below, chain <+: c) ∧
          ∀ c ∈ before ++ after, ¬chain <+: c) ∧
      (Kind.ofValue d.value ≠ .object → d.chains = []) ∧
      (∀ chain items, d.value.follow chain = some (.array items) →
        ∀ more, more ≠ [] → chain ++ more ∉ d.chains) ∧
      d.deepChains.Pairwise (List.Lex (· < ·)) ∧
      ∀ chain, chain ∈ d.deepChains ↔
        chain.length = 64 ∧ ∃ fields, d.value.follow chain = some (.object fields) := by
  refine ⟨?_, ?_, fun d hd => ?_⟩
  · rw [catalogue_eq]
    exact List.flatMap_congr fun d hd => Document.places_eq (hds d hd)
  · rw [warnings_eq]
    exact List.flatMap_congr fun d hd => Document.notes_eq (hds d hd)
  have hascending := hds d hd
  have hsorted : d.chains.Pairwise (List.Lex (· < ·)) := pairwise_chainsBelow 1 hascending
  refine ⟨Document.mem_chains_iff hascending, hsorted, fun chain => exists_block hsorted, ?_, ?_,
    hsorted.filter _, Document.mem_deepChains_iff hascending⟩
  · intro hkind
    rw [Document.chains]
    cases hvalue : d.value with
    | object fields => exact absurd (hvalue ▸ rfl) hkind
    | _ => rfl
  · intro chain items hitems more hmore hmem
    obtain ⟨-, -, w, hw⟩ := (Document.mem_chains_iff hascending _).mp hmem
    obtain ⟨key, rest, rfl⟩ := List.exists_cons_of_ne_nil hmore
    rw [Value.follow_append, hitems] at hw
    cases hw

def nestedDocument : Document :=
  ⟨"a.json", .object [("a", .object [("b", .null), ("c", .array [.object [("d", .null)]])]),
    ("b", .bool true)]⟩

theorem catalogue_in_order_nested :
    (∀ d ∈ [nestedDocument, ⟨"b.json", .array [.null]⟩], d.value.Ascending) ∧
      (catalogue [nestedDocument, ⟨"b.json", .array [.null]⟩]).map (·.keyPath) =
        ["a", "a.b", "a.c", "b"] := by
  have hvalues : ∀ d ∈ [nestedDocument, ⟨"b.json", .array [.null]⟩], d.value.Ascending := by
    intro d hd
    rcases List.mem_pair.mp hd with rfl | rfl
    · have hlast : (Value.object [("d", .null)]).Ascending :=
        .object _ (by decide) (by simpa using .null)
      have hlist : (Value.array [.object [("d", .null)]]).Ascending :=
        .array _ (by simpa using hlast)
      have hinner : (Value.object
          [("b", .null), ("c", .array [.object [("d", .null)]])]).Ascending :=
        .object _ (by decide) (by simpa using ⟨.null, hlist⟩)
      exact .object _ (by decide) (by simpa using ⟨hinner, .bool true⟩)
    · exact .array _ (by simpa using .null)
  obtain ⟨hcatalogue, -⟩ := catalogue_in_order _ hvalues
  refine ⟨hvalues, ?_⟩
  rw [hcatalogue]
  decide +kernel

end Resources

end Likeness
