import Likeness.Components.Hook
import Likeness.Proofs.Syntax.Spots
import Likeness.Proofs.Ways

namespace Likeness

open Components Syntax

namespace Syntax

section Ways

variable (keep : Tree → Bool)

-- What is directly below the node at a spot, as far as it is kept.
def Spot.below (p : Spot) : List Spot :=
  (p.node.children.filter keep).map (⟨p.node :: p.around, ·⟩)

-- The spot that a way through a tree leads to.
def Tree.spotAt? (way : List ℕ) (t : Tree) : Option Spot :=
  Ways.at? (Spot.below keep) way ⟨[], t⟩

-- The spots of a tree are those that its ways lead to, in their order.
theorem Tree.exists_ways_spotsOf (t : Tree) :
    ∃ ways, Ways.Lists (Spot.below keep) ⟨[], t⟩ ways ∧
      spotsOf keep [] t = ways.filterMap (spotAt? keep · t) := by
  have hwalk (p : Spot) : spotsOf keep p.around p.node =
      p :: (p.below keep).flatMap fun q => spotsOf keep q.around q.node := by
    rw [spotsOf_eq, Spot.below, List.flatMap_map]
  obtain ⟨ways, hways, hspots⟩ := Ways.exists_lists (f := id) hwalk ⟨[], t⟩
  refine ⟨ways, hways, hspots.trans (List.filterMap_congr fun way _ => ?_)⟩
  rw [Option.map_id]
  rfl

end Ways

end Syntax

namespace Components

-- What follows `use` in the name of a hook starts with a capital letter.
def NamesHook (name : String) : Prop :=
  ∃ c rest, name = String.ofList ('u' :: 's' :: 'e' :: c :: rest) ∧ Text.isUppercase c = true

-- The name that is called, by itself or as a property of an object.
inductive Calls (s : Source) (t : Tree) : String → Prop where
  | plain {callee : Tree} (hcallee : t.child? .function = some callee)
      (hkind : callee.hasKind .identifier = true) : Calls s t (s.textOf callee)
  | property {callee property : Tree} (hcallee : t.child? .function = some callee)
      (hkind : callee.hasKind .memberExpression = true)
      (hproperty : callee.child? .property = some property) : Calls s t (s.textOf property)

-- A call of a hook is at the end of a way through a tree.
structure HookCall.StandsAt (s : Source) (body : Tree) (way : List ℕ) (call : HookCall) :
    Prop where
  spot : ∃ around, body.spotAt? Tree.isPart way = some ⟨around, call.node⟩ ∧
    around.head? = call.parent
  isCall : call.node.hasKind .callExpression = true
  calls : Calls s call.node call.name
  namesHook : NamesHook call.name

theorem isHookName_iff (name : String) : isHookName name = true ↔ NamesHook name := by
  unfold isHookName
  split
  · next c rest hname =>
    constructor
    · intro hc
      exact ⟨c, rest, by rw [← hname, String.ofList_toList], hc⟩
    · rintro ⟨d, more, rfl, hd⟩
      rw [String.toList_ofList] at hname
      simp only [List.cons.injEq, true_and] at hname
      rwa [← hname.1]
  · next hother =>
    refine iff_of_false Bool.false_ne_true ?_
    rintro ⟨c, rest, rfl, -⟩
    exact hother c rest String.toList_ofList

theorem calleeName?_eq_some_iff {s : Source} {t : Tree} {name : String} :
    calleeName? s t = some name ↔ Calls s t name := by
  unfold calleeName?
  constructor
  · intro h
    split at h
    · next callee hcallee =>
      split at h
      · next hkind =>
        obtain rfl := Option.some.inj h
        exact .plain hcallee hkind
      · split at h
        · next hkind =>
          obtain ⟨property, hproperty, rfl⟩ := Option.map_eq_some_iff.mp h
          exact .property hcallee hkind hproperty
        · cases h
    · cases h
  · intro h
    cases h with
    | plain hcallee hkind =>
      rw [hcallee]
      exact if_pos hkind
    | @property callee property hcallee hkind hproperty =>
      have hother : ¬callee.hasKind .identifier = true := by
        rw [Tree.hasKind_iff] at hkind ⊢
        rw [hkind]
        decide
      rw [hcallee]
      dsimp only
      rw [if_neg hother, if_pos hkind, hproperty]
      rfl

theorem hookCall?_eq_some_iff {s : Source} {p : Spot} {call : HookCall} :
    hookCall? s p = some call ↔ (p.node = call.node ∧ p.parent? = call.parent) ∧
      call.node.hasKind .callExpression = true ∧ Calls s call.node call.name ∧
        NamesHook call.name := by
  obtain ⟨name, parent, node⟩ := call
  unfold hookCall?
  split
  · next hkind =>
    rw [Option.map_eq_some_iff]
    simp only [Option.filter_eq_some_iff, calleeName?_eq_some_iff, isHookName_iff,
      HookCall.mk.injEq]
    constructor
    · rintro ⟨_, ⟨hcalls, hname⟩, rfl, rfl, rfl⟩
      exact ⟨⟨rfl, rfl⟩, hkind, hcalls, hname⟩
    · rintro ⟨⟨rfl, rfl⟩, -, hcalls, hname⟩
      exact ⟨_, ⟨hcalls, hname⟩, rfl, rfl, rfl⟩
  · next hkind =>
    refine iff_of_false (Option.some_ne_none _).symm ?_
    rintro ⟨⟨rfl, -⟩, hcall, -⟩
    exact hkind hcall

-- A call of any other hook as it is listed: its name, and a text for each argument. Comments
-- between the arguments are none.
structure CustomHook.Records (s : Source) (call : HookCall) (hook : CustomHook) : Prop where
  name : hook.name = call.name
  arguments : hook.arguments = ((call.node.child? .arguments).elim [] fun t =>
    t.children.filter Tree.isPart).map s.valueOrText

namespace Hooks

variable (s : Source) (body : Tree)

-- The calls of hooks are those at the ends of ways, in the order of the ways.
theorem exists_calls : ∃ calls : List (List ℕ × HookCall),
    calls.Pairwise (fun a b => a.1 < b.1) ∧
      (∀ way call, (way, call) ∈ calls ↔ call.StandsAt s body way) ∧
      calls.map Prod.snd = hookCalls s body := by
  obtain ⟨ways, hways, hspots⟩ := body.exists_ways_spotsOf Tree.isPart
  let callAt? (way : List ℕ) : Option HookCall :=
    (body.spotAt? Tree.isPart way).bind (hookCall? s)
  refine ⟨ways.filterMap fun way => (callAt? way).map (way, ·), ?_, fun way call => ?_, ?_⟩
  · refine hways.ascending.filterMap _ fun way way' hlt a ha b hb => ?_
    obtain ⟨_, -, rfl⟩ := Option.map_eq_some_iff.mp ha
    obtain ⟨_, -, rfl⟩ := Option.map_eq_some_iff.mp hb
    exact hlt
  · have hstands : callAt? way = some call ↔ call.StandsAt s body way := by
      rw [Option.bind_eq_some_iff]
      simp only [hookCall?_eq_some_iff]
      constructor
      · rintro ⟨⟨around, node⟩, hspot, ⟨rfl, hparent⟩, hcall, hcalls, hname⟩
        exact ⟨⟨around, hspot, hparent⟩, hcall, hcalls, hname⟩
      · rintro ⟨⟨around, hspot, hparent⟩, hcall, hcalls, hname⟩
        exact ⟨_, hspot, ⟨rfl, hparent⟩, hcall, hcalls, hname⟩
    rw [List.mem_filterMap]
    constructor
    · rintro ⟨way', -, hentry⟩
      obtain ⟨call', hcall, heq⟩ := Option.map_eq_some_iff.mp hentry
      obtain ⟨rfl, rfl⟩ := Prod.mk.inj heq
      exact hstands.mp hcall
    · intro hcall
      obtain ⟨around, hspot, -⟩ := hcall.spot
      have hway : way ∈ ways := (hways.mem_iff way).mpr (Option.isSome_of_eq_some hspot)
      exact ⟨way, hway, Option.map_eq_some_iff.mpr ⟨call, hstands.mpr hcall, rfl⟩⟩
  · rw [hookCalls, Tree.spots_eq, hspots, List.filterMap_filterMap, List.map_filterMap]
    refine List.filterMap_congr fun way _ => ?_
    rw [Option.map_map]
    exact Option.map_id'

-- A walk with a stack comes by the calls in the same order.
theorem sublist_descendants : ((hookCalls s body).map (·.node)).Sublist body.descendants := by
  rw [Tree.descendants_eq, hookCalls]
  induction body.spots with
  | nil => exact List.Sublist.slnil
  | cons p rest ih =>
    cases hcall : hookCall? s p with
    | none =>
      rw [List.filterMap_cons_none hcall]
      exact ih.cons p.node
    | some call =>
      rw [List.filterMap_cons_some hcall, List.map_cons, List.map_cons,
        (hookCall?_eq_some_iff.mp hcall).1.1]
      exact ih.cons_cons call.node

theorem records_custom (calls : List HookCall) : List.Forall₂ (CustomHook.Records s) calls
    (calls.map fun call => ⟨call.name, (argumentsOf call.node).map s.valueOrText⟩) := by
  rw [List.forall₂_map_right_iff]
  refine List.forall₂_same.mpr fun call _ => ⟨rfl, ?_⟩
  unfold argumentsOf
  cases call.node.child? .arguments with
  | none => rfl
  | some arguments => exact congrArg (List.map s.valueOrText) arguments.parts_eq

-- Each of the calls is in one of three groups.
theorem length_groups (calls : List HookCall) :
    (calls.filter (·.name == "useState")).length + (calls.filter (·.name == "useEffect")).length +
      (calls.filter fun call => call.name != "useState" && call.name != "useEffect").length =
        calls.length := by
  induction calls with
  | nil => rfl
  | cons call rest ih =>
    simp only [List.filter_cons]
    by_cases hstate : call.name = "useState"
    · simp [hstate]
      omega
    by_cases heffect : call.name = "useEffect"
    · simp [heffect]
      omega
    · simp [hstate, heffect]
      omega

-- Every call of a hook in a tree has one entry in one of the lists, at any depth and wherever it
-- stands, and nothing else has one. Calls that set up a state and calls that set up an effect have
-- lists of their own. In each list a call comes before those in its arguments, and these before the
-- next call beside it.
theorem all_partitions : ∃ calls : List (List ℕ × HookCall),
    calls.Pairwise (fun a b => a.1 < b.1) ∧
      (∀ way call, (way, call) ∈ calls ↔ call.StandsAt s body way) ∧
      (calls.map (·.2.node)).Sublist body.descendants ∧
      (all s body).state = ((calls.map Prod.snd).filter (·.name == "useState")).map
        (StateHook.ofCall s) ∧
      (all s body).effect = ((calls.map Prod.snd).filter (·.name == "useEffect")).map
        (fun call => EffectHook.ofCall s call.node) ∧
      List.Forall₂ (CustomHook.Records s)
        ((calls.map Prod.snd).filter fun call =>
          call.name != "useState" && call.name != "useEffect")
        (all s body).custom ∧
      (all s body).state.length + (all s body).effect.length + (all s body).custom.length =
        calls.length := by
  obtain ⟨calls, hascending, hmem, hcalls⟩ := exists_calls s body
  refine ⟨calls, hascending, hmem, ?_, ?_, ?_, ?_, ?_⟩
  · have hsub := sublist_descendants s body
    rwa [← hcalls, List.map_map] at hsub
  · rw [hcalls]
    rfl
  · rw [hcalls]
    rfl
  · rw [hcalls]
    exact records_custom s _
  · have hlength : (calls.map (·.2)).length = calls.length := List.length_map _
    rw [← hlength, hcalls, ← length_groups]
    simp only [all, List.length_map]

end Hooks

end Components

end Likeness
