import Likeness.Proofs.Duplicates.Cover
import Likeness.Proofs.Duplicates.PairKey
import Likeness.Proofs.Json.Text
import Likeness.Proofs.Resources.Scope
import Mathlib.Data.Sym.Sym2

namespace Likeness.Resources

open Duplicates Json Number Similarity

-- What is digested of the places of a scope: their texts, and any two of their digests.
def Scope.digested (ds : List Document) (s : Scope) : List ByteArray :=
  (s.places ds).map (fun p => (s.word ++ p.value.text).toUTF8) ++
    (s.places ds).flatMap fun a => (s.places ds).map fun b => pairBytes a.digest b.digest

def digested (ds : List Document) : List ByteArray :=
  Scope.documents.digested ds ++ Scope.values.digested ds

section Keys

variable {ds : List Document} {s t : Scope} {a b c d : Place}

theorem mem_digested {bytes : ByteArray} (h : bytes ∈ s.digested ds) : bytes ∈ digested ds := by
  cases s with
  | documents => exact List.mem_append_left _ h
  | values => exact List.mem_append_right _ h

theorem text_mem_digested (ha : a ∈ s.places ds) :
    (s.word ++ a.value.text).toUTF8 ∈ digested ds :=
  mem_digested (List.mem_append_left _ (List.mem_map.mpr ⟨a, ha, rfl⟩))

theorem pairBytes_mem_digested (ha : a ∈ s.places ds) (hb : b ∈ s.places ds) :
    pairBytes a.digest b.digest ∈ digested ds :=
  mem_digested (List.mem_append_right _
    (List.mem_flatMap.mpr ⟨a, ha, List.mem_map.mpr ⟨b, hb, rfl⟩⟩))

variable (hds : ∀ d ∈ ds, d.value.Proper) (hdigest : Digest.CollisionFree (digested ds))

include hds hdigest

-- Equal digests come from one scope and one value.
theorem eq_of_digest_eq (ha : a ∈ s.places ds) (hb : b ∈ t.places ds)
    (h : a.digest = b.digest) : s = t ∧ a.value = b.value := by
  obtain ⟨hproper, hsame⟩ := Scope.of_mem_places hds ha
  obtain ⟨hproper', hsame'⟩ := Scope.of_mem_places hds hb
  rw [hsame, hsame'] at h
  have hbytes := hdigest _ (text_mem_digested ha) _ (text_mem_digested hb) h
  rw [String.toUTF8_eq_toByteArray, String.toUTF8_eq_toByteArray, String.toByteArray_inj] at hbytes
  obtain ⟨hscope, htext⟩ := Scope.word_append_inj hbytes
  exact ⟨hscope, Value.text_injective hproper hproper' htext⟩

-- A key is that of one unordered pair of values of one scope.
theorem eq_of_pairKey_eq (ha : a ∈ s.places ds) (hb : b ∈ s.places ds) (hc : c ∈ t.places ds)
    (hd : d ∈ t.places ds) (h : pairKey a.digest b.digest = pairKey c.digest d.digest) :
    s = t ∧ s(a.value, b.value) = s(c.value, d.value) := by
  have hnull {p : Place} {u : Scope} (hp : p ∈ u.places ds) : NullFree p.digest := by
    rw [(Scope.of_mem_places hds hp).2]
    exact nullFree_blake3 _
  rw [pairKey_eq, pairKey_eq] at h
  have hbytes := hdigest _ (pairBytes_mem_digested ha hb) _ (pairBytes_mem_digested hc hd) h
  rw [pairBytes_eq_iff (hnull ha) (hnull hb)] at hbytes
  rw [Sym2.eq_iff]
  rcases hbytes with ⟨hac, hbd⟩ | ⟨had, hbc⟩
  · obtain ⟨hscope, hfirst⟩ := eq_of_digest_eq hds hdigest ha hc hac
    exact ⟨hscope, .inl ⟨hfirst, (eq_of_digest_eq hds hdigest hb hd hbd).2⟩⟩
  · obtain ⟨hscope, hfirst⟩ := eq_of_digest_eq hds hdigest ha hd had
    exact ⟨hscope, .inr ⟨hfirst, (eq_of_digest_eq hds hdigest hb hc hbc).2⟩⟩

end Keys

variable {α : Type} [Scalar α]

-- Whether two places of a scope are found alike and recorded under a key.
structure Recorded (o : Options α) (ds : List Document) (key : String) (s : Scope)
    (a b : Place) : Prop where
  sublist : [a, b].Sublist (s.places ds)
  alike : s.Alike o a.value b.value
  key_eq : pairKey a.digest b.digest = key

-- What makes a group one about an unordered pair of values of a scope.
structure About (o : Options α) (ds : List Document) (s : Scope) (pair : Sym2 Value)
    (g : Duplicates.Group α) : Prop where
  recorded : ∃ a b, Recorded o ds g.key s a b
  -- nothing else is recorded for it
  only (t : Scope) (a b : Place) : Recorded o ds g.key t a b → t = s ∧ s(a.value, b.value) = pair
  representative_mem : ∃ v ∈ pair, g.representative = .value v
  occurrence_mem : ∀ x ∈ g.occurrences, ∃ a b,
    (Recorded o ds g.key s a b ∨ Recorded o ds g.key s b a) ∧ a.value ∈ pair ∧ a.occurrence = x
  similarity_eq : ∃ v w, s(v, w) = pair ∧ g.similarity = Scalar.limit (s.score o v w)

section Groups

variable {o : Options α} {ds : List Document} {key : String} {s t : Scope} {a b c d : Place}
  {pair : Sym2 Value} {g g' : Duplicates.Group α}

theorem Recorded.left_mem (h : Recorded o ds key s a b) : a ∈ s.places ds :=
  h.sublist.mem (by simp)

theorem Recorded.right_mem (h : Recorded o ds key s a b) : b ∈ s.places ds :=
  h.sublist.mem (by simp)

theorem mem_ofKey_log_iff (key : String) (f : Finding α) : f ∈ ofKey key (log o ds) ↔
    ∃ s a b, Recorded o ds key s a b ∧ finding a b (s.score o a.value b.value) = f := by
  rw [ofKey, List.mem_filter, mem_log_iff, decide_eq_true_iff]
  constructor
  · rintro ⟨⟨s, hs⟩, hkey⟩
    obtain ⟨a, b, hsublist, halike, rfl⟩ := (Scope.mem_findings_iff ..).mp hs
    exact ⟨s, a, b, ⟨hsublist, halike, hkey⟩, rfl⟩
  · rintro ⟨s, a, b, ⟨hsublist, halike, hkey⟩, rfl⟩
    exact ⟨⟨s, (Scope.mem_findings_iff ..).mpr ⟨a, b, hsublist, halike, rfl⟩⟩, hkey⟩

-- All that is recorded under one key is about one unordered pair of values.
theorem Recorded.pair_eq (hds : ∀ d ∈ ds, d.value.Proper)
    (hdigest : Digest.CollisionFree (digested ds)) (h : Recorded o ds key s a b)
    (h' : Recorded o ds key t c d) : t = s ∧ s(c.value, d.value) = s(a.value, b.value) := by
  have hkey : pairKey c.digest d.digest = pairKey a.digest b.digest :=
    h'.key_eq.trans h.key_eq.symm
  exact eq_of_pairKey_eq hds hdigest h'.left_mem h'.right_mem h.left_mem h.right_mem hkey

-- One unordered pair of values is recorded under one key.
theorem Recorded.key_unique (hds : ∀ d ∈ ds, d.value.Proper) {key' : String}
    (h : Recorded o ds key s a b) (h' : Recorded o ds key' s c d)
    (hpair : s(a.value, b.value) = s(c.value, d.value)) : key = key' := by
  have hsame {p : Place} (hp : p ∈ s.places ds) : p.digest = valueDigest s.word p.value :=
    (Scope.of_mem_places hds hp).2
  rw [← h.key_eq, ← h'.key_eq, hsame h.left_mem, hsame h.right_mem, hsame h'.left_mem,
    hsame h'.right_mem]
  rcases Sym2.eq_iff.mp hpair with ⟨hac, hbd⟩ | ⟨had, hbc⟩
  · rw [hac, hbd]
  · rw [had, hbc, pairKey_comm]

theorem Recorded.occurrence_cases (h : Recorded o ds key s a b) {x : Occurrence}
    (hx : x ∈ [a.occurrence, b.occurrence]) : ∃ c d,
      (Recorded o ds key s c d ∨ Recorded o ds key s d c) ∧ c.value ∈ s(a.value, b.value) ∧
        c.occurrence = x := by
  rcases List.mem_pair.mp hx with rfl | rfl
  · exact ⟨a, b, .inl h, Sym2.mem_mk_left _ _, rfl⟩
  · exact ⟨b, a, .inr h, Sym2.mem_mk_right _ _, rfl⟩

-- A group tells of the one pair that is recorded under its key.
theorem about_of_tells (htells : Tells (ofKey g.key (log o ds)) g)
    (h : Recorded o ds g.key s a b) (honly : ∀ t c d, Recorded o ds g.key t c d →
      t = s ∧ s(c.value, d.value) = s(a.value, b.value)) :
    About o ds s s(a.value, b.value) g := by
  have hfinding {f : Finding α} (hf : f ∈ ofKey g.key (log o ds)) : ∃ c d,
      Recorded o ds g.key s c d ∧ s(c.value, d.value) = s(a.value, b.value) ∧
        finding c d (s.score o c.value d.value) = f := by
    obtain ⟨t, c, d, hrecorded, hf⟩ := (mem_ofKey_log_iff g.key f).mp hf
    obtain ⟨rfl, hpair⟩ := honly t c d hrecorded
    exact ⟨c, d, hrecorded, hpair, hf⟩
  refine ⟨⟨a, b, h⟩, honly, ?_, fun x hx => ?_, ?_⟩
  · obtain ⟨f, hfirst, hrepresentative⟩ := Option.map_eq_some_iff.mp htells.representative_eq
    obtain ⟨c, d, -, hpair, rfl⟩ := hfinding (List.mem_of_mem_head? hfirst)
    refine ⟨c.value, ?_, hrepresentative.symm⟩
    rw [← hpair]
    exact Sym2.mem_mk_left _ _
  · rw [htells.occurrences_eq] at hx
    obtain ⟨f, hf, hx⟩ := List.mem_flatMap.mp ((eraseDupsBy_sublist _ _).mem hx)
    obtain ⟨c, d, hrecorded, hpair, rfl⟩ := hfinding hf
    rw [← hpair]
    exact hrecorded.occurrence_cases hx
  · obtain ⟨f, hf, hsimilarity⟩ := htells.similarity_mem
    obtain ⟨c, d, -, hpair, rfl⟩ := hfinding hf
    exact ⟨c.value, d.value, hpair, hsimilarity⟩

-- Two groups about one pair have one key.
theorem About.key_unique (hds : ∀ d ∈ ds, d.value.Proper) (h : About o ds s pair g)
    (h' : About o ds s pair g') : g.key = g'.key := by
  obtain ⟨a, b, hab⟩ := h.recorded
  obtain ⟨c, d, hcd⟩ := h'.recorded
  have hpair : s(a.value, b.value) = s(c.value, d.value) :=
    (h.only s a b hab).2.trans (h'.only s c d hcd).2.symm
  exact hab.key_unique hds hcd hpair

theorem About.pair_unique {pair' : Sym2 Value} (h : About o ds s pair g)
    (h' : About o ds t pair' g) : s = t ∧ pair = pair' := by
  obtain ⟨a, b, hab⟩ := h.recorded
  obtain ⟨hscope, hpair⟩ := h'.only s a b hab
  exact ⟨hscope, (h.only s a b hab).2.symm.trans hpair⟩

end Groups

-- The groups of resources are groups about unordered pairs of values of one scope, each about one
-- pair and no two about the same. So it is whether or not they are shown.
theorem groups_about_pairs [OrderedScalar α] (o : Options α) {ds : List Document}
    (hds : ∀ d ∈ ds, d.value.Proper) (hdigest : Digest.CollisionFree (digested ds))
    {earlier : List (Finding α)} (hearlier : ∀ f ∈ earlier, f.category ≠ .resources) :
    let groups := (Registry.empty.recordAll
      (earlier ++ documentFindings o ds ++ valueFindings o ds)).groups .resources
    (∀ g ∈ groups, ∃ s pair, About o ds s pair g) ∧
    ∀ g ∈ groups, ∀ g' ∈ groups, ∀ s t pair pair', About o ds s pair g → About o ds t pair' g' →
      (s = t ∧ pair = pair' ↔ g = g') := by
  intro groups
  have htells (g : Duplicates.Group α) (hg : g ∈ groups) : Tells (ofKey g.key (log o ds)) g :=
    tells_of_mem_groups hearlier hg
  constructor
  · intro g hg
    have htells := htells g hg
    obtain ⟨f, hf, -⟩ := htells.similarity_mem
    obtain ⟨s, a, b, hrecorded, -⟩ := (mem_ofKey_log_iff g.key f).mp hf
    have honly (t : Scope) (c d : Place) (h : Recorded o ds g.key t c d) :
        t = s ∧ s(c.value, d.value) = s(a.value, b.value) := hrecorded.pair_eq hds hdigest h
    exact ⟨s, _, about_of_tells htells hrecorded honly⟩
  · intro g hg g' hg' s t pair pair' habout habout'
    constructor
    · rintro ⟨rfl, rfl⟩
      have hkeys : (groups.map (·.key)).Nodup := Registry.nodup_keys _ _
      exact List.inj_on_of_nodup_map hkeys hg hg' (habout.key_unique hds habout')
    · rintro rfl
      exact habout.pair_unique habout'

def hollow : List Document := [⟨"a.json", .object []⟩, ⟨"b.json", .object []⟩]

theorem groups_about_pairs_hollow :
    let groups := (Registry.empty.recordAll ([] ++ documentFindings (.standard : Options Float)
      hollow ++ valueFindings (.standard : Options Float) hollow)).groups .resources
    (∀ d ∈ hollow, d.value.Proper) ∧ Digest.CollisionFree (digested hollow) ∧
      groups.length = 1 ∧ ∀ g ∈ groups, ∃ s pair, About (.standard : Options Float) hollow s pair g := by
  intro groups
  have hproper : ∀ d ∈ hollow, d.value.Proper := by simp [hollow]
  have hdigest : Digest.CollisionFree (digested hollow) := by
    let text := "document{}".toUTF8
    let pair := pairBytes (Digest.blake3 text) (Digest.blake3 text)
    have hne : Digest.blake3 text ≠ Digest.blake3 pair := by decide +kernel
    have hmem : ∀ bytes ∈ digested hollow, bytes = text ∨ bytes = pair := by
      have hlist : digested hollow = [text, text, pair, pair, pair, pair] := rfl
      simp [hlist]
    intro a ha b hb h
    rcases hmem a ha with rfl | rfl <;> rcases hmem b hb with rfl | rfl
    · rfl
    · exact absurd h hne
    · exact absurd h.symm hne
    · rfl
  have hcount : groups.length = 1 := by decide +kernel
  exact ⟨hproper, hdigest, hcount, (groups_about_pairs _ hproper hdigest (by simp)).1⟩

end Likeness.Resources
