import Likeness.Proofs.Pairs

namespace Likeness

-- Whether texts that are digested have different digests. No digest has this for all texts.
def Digest.CollisionFree (inputs : List ByteArray) : Prop :=
  ∀ a ∈ inputs, ∀ b ∈ inputs, Digest.blake3 a = Digest.blake3 b → a = b

theorem Digest.null_notMem_hexDigits {byte : Nat} (h : byte < 256) :
    '\x00' ∉ Digest.hexDigits byte := by
  have hdigit : ∀ n < 16, '\x00' ≠ Char.ofNat (if n < 10 then 48 + n else 87 + n) := by decide
  have hhigh : byte / 16 < 16 := by omega
  have hlow : byte % 16 < 16 := by omega
  rw [hexDigits, List.mem_pair, not_or]
  exact ⟨hdigit _ hhigh, hdigit _ hlow⟩

namespace Duplicates

-- Two texts in ascending order.
def ordered (a b : String) : String × String := if b < a then (b, a) else (a, b)

-- What a key of two texts is the digest of.
def pairBytes (a b : String) : ByteArray :=
  (ordered a b).1.toUTF8 ++ ByteArray.mk #[0] ++ (ordered a b).2.toUTF8

theorem pairKey_eq (a b : String) : pairKey a b = Digest.blake3 (pairBytes a b) := rfl

theorem ordered_eq_iff (a b c d : String) :
    ordered a b = ordered c d ↔ a = c ∧ b = d ∨ a = d ∧ b = c := by
  unfold ordered
  split <;> split <;> rw [Prod.mk.injEq]
  · grind
  · grind
  · grind
  · grind

theorem ordered_cases (a b : String) : ordered a b = (a, b) ∨ ordered a b = (b, a) := by
  unfold ordered
  split
  · exact .inr rfl
  · exact .inl rfl

theorem pairBytes_comm (a b : String) : pairBytes a b = pairBytes b a := by
  have hordered : ordered a b = ordered b a := (ordered_eq_iff a b b a).mpr (.inr ⟨rfl, rfl⟩)
  rw [pairBytes, pairBytes, hordered]

theorem pairKey_comm (a b : String) : pairKey a b = pairKey b a := by
  rw [pairKey_eq, pairKey_eq, pairBytes_comm]

theorem pairBytes_eq_toUTF8 (a b : String) :
    pairBytes a b = ((ordered a b).1 ++ "\x00" ++ (ordered a b).2).toUTF8 := by
  have hnull : ByteArray.mk #[0] = "\x00".toUTF8 := by decide
  rw [pairBytes, hnull]
  simp only [String.toUTF8_eq_toByteArray, String.toByteArray_append]

-- Whether a text can be told from what follows a null character after it.
def NullFree (text : String) : Prop := '\x00' ∉ text.toList

instance (text : String) : Decidable (NullFree text) := by unfold NullFree; infer_instance

-- A digest is made of hexadecimal digits.
theorem nullFree_blake3 (bytes : ByteArray) : NullFree (Digest.blake3 bytes) := by
  intro hnull
  rw [Digest.blake3, String.toList_ofList, List.mem_flatMap] at hnull
  obtain ⟨w, -, hw⟩ := hnull
  rw [Digest.wordHex, List.mem_flatMap] at hw
  obtain ⟨part, -, hpart⟩ := hw
  exact Digest.null_notMem_hexDigits (Nat.mod_lt _ (by decide)) hpart

theorem eq_of_separated {a b c d : String} (ha : NullFree a) (hb : NullFree b)
    (h : a ++ "\x00" ++ b = c ++ "\x00" ++ d) : a = c ∧ b = d := by
  have hlist : a.toList ++ '\x00' :: b.toList = c.toList ++ '\x00' :: d.toList := by
    simpa using congrArg String.toList h
  obtain ⟨hfirst, -, hsecond⟩ := (List.append_cons_inj_of_notMem ha hb).mp hlist
  exact ⟨String.toList_inj.mp hfirst, String.toList_inj.mp hsecond⟩

-- Null characters aside, two pairs have the same bytes just when they are made of the same texts.
theorem pairBytes_eq_iff {a b : String} (ha : NullFree a) (hb : NullFree b) (c d : String) :
    pairBytes a b = pairBytes c d ↔ a = c ∧ b = d ∨ a = d ∧ b = c := by
  rw [← ordered_eq_iff]
  refine ⟨fun h => ?_, fun h => by rw [pairBytes, pairBytes, h]⟩
  rw [pairBytes_eq_toUTF8, pairBytes_eq_toUTF8, String.toUTF8_eq_toByteArray,
    String.toUTF8_eq_toByteArray, String.toByteArray_inj] at h
  have hfree : NullFree (ordered a b).1 ∧ NullFree (ordered a b).2 := by
    rcases ordered_cases a b with hab | hab <;> rw [hab]
    · exact ⟨ha, hb⟩
    · exact ⟨hb, ha⟩
  obtain ⟨hfirst, hsecond⟩ := eq_of_separated hfree.1 hfree.2 h
  exact Prod.ext hfirst hsecond

-- Different texts make different pairs.
theorem nodup_ordered {texts : List String} (h : texts.Nodup) :
    ((orderedPairs texts).map fun pair => ordered pair.1 pair.2).Nodup := by
  induction texts with
  | nil => exact List.nodup_nil
  | cons text texts ih =>
    obtain ⟨hnew, hrest⟩ := List.nodup_cons.mp h
    rw [orderedPairs, List.map_append, List.nodup_append]
    refine ⟨?_, ih hrest, ?_⟩
    · rw [List.map_map]
      refine hrest.map fun a b heq => ?_
      rcases (ordered_eq_iff _ _ _ _).mp heq with ⟨-, hab⟩ | ⟨htext, hab⟩
      · exact hab
      · exact hab.trans htext
    · rintro _ hfirst _ hlast rfl
      rw [List.map_map, List.mem_map] at hfirst
      obtain ⟨other, -, hother⟩ := hfirst
      obtain ⟨⟨a, b⟩, hab, heq⟩ := List.mem_map.mp hlast
      have hpair := (mem_orderedPairs_iff a b texts).mp hab
      rcases (ordered_eq_iff _ _ _ _).mp (hother.trans heq.symm) with ⟨rfl, -⟩ | ⟨rfl, -⟩
      · exact hnew (hpair.mem (by simp))
      · exact hnew (hpair.mem (by simp))

-- Two keys are the same just when the pairs are.
theorem nodup_pairKeys_iff {β : Type} {pairs : List β} (first second : β → String)
    (hnull : ∀ pair ∈ pairs, NullFree (first pair) ∧ NullFree (second pair))
    (hdigest : Digest.CollisionFree
      (pairs.map fun pair => pairBytes (first pair) (second pair))) :
    (pairs.map fun pair => pairKey (first pair) (second pair)).Nodup ↔
      (pairs.map fun pair => ordered (first pair) (second pair)).Nodup := by
  rw [List.Nodup, List.pairwise_map, List.Nodup, List.pairwise_map]
  refine List.Pairwise.iff_of_mem fun {a b} ha hb => not_congr ?_
  rw [pairKey_eq, pairKey_eq, ordered_eq_iff, ← pairBytes_eq_iff (hnull a ha).1 (hnull a ha).2]
  refine ⟨fun h => hdigest _ (List.mem_map_of_mem ha) _ (List.mem_map_of_mem hb) h, fun h => ?_⟩
  rw [h]

end Duplicates

end Likeness
