import Likeness.Proofs.Duplicates.Refinement
import Likeness.Proofs.Duplicates.View

namespace Likeness.Duplicates

open Number

variable {α : Type} [Scalar α]

section Tells

variable {log : List (Finding α)} {g : Group α}

theorem Tells.site_mem_iff (h : Tells log g) (site : Files.Steps × Locator) :
    site ∈ g.occurrences.map Occurrence.site ↔
      ∃ f ∈ log, site ∈ f.occurrences.map Occurrence.site := by
  rw [h.occurrences_eq, Occurrence.mem_site_distinct]
  simp only [List.mem_map, List.mem_flatMap]
  grind

theorem Tells.nodup_sites (h : Tells log g) : (g.occurrences.map Occurrence.site).Nodup := by
  rw [h.occurrences_eq]
  exact Occurrence.nodup_sites _

end Tells

namespace Registry

variable [OrderedScalar α] {log log' : List (Finding α)}

-- Each finding has its group, which its findings tell of.
theorem exists_group (hn : ∀ f ∈ log, Scalar.isNumber f.similarity) {f : Finding α}
    (hf : f ∈ log) : ∃ g ∈ (empty.recordAll log).groups f.category,
      g.key = f.key ∧ Tells (ofKey f.key (ofCategory f.category log)) g := by
  have hagrees := agrees_recordAll log hn
  have hkey : f.key ∈ ((empty.recordAll log).groups f.category).map (·.key) := by
    rw [hagrees.keys_eq, keysOf, List.mem_eraseDups]
    exact List.mem_map_of_mem (by simpa [ofCategory] using hf)
  obtain ⟨g, hg, hsame⟩ := List.mem_map.mp hkey
  exact ⟨g, hg, hsame, hsame ▸ (hagrees.tells f.category g hg).2⟩

end Registry

-- A finding that says as much as another one: all its places under the same key, and a score that
-- is at least as high.
structure Finding.Covers (f' f : Finding α) : Prop where
  category_eq : f'.category = f.category
  key_eq : f'.key = f.key
  sites_subset : f.occurrences.map Occurrence.site ⊆ f'.occurrences.map Occurrence.site
  similarity_le : Scalar.le (Scalar.limit f.similarity) (Scalar.limit f'.similarity) = true

-- Whether a log says all that another one says.
def LogCovers (log' log : List (Finding α)) : Prop := ∀ f ∈ log, ∃ f' ∈ log', f'.Covers f

theorem LogCovers.refl [OrderedScalar α] {log : List (Finding α)}
    (hn : ∀ f ∈ log, Scalar.isNumber f.similarity) : LogCovers log log :=
  fun f hf => ⟨f, hf, rfl, rfl, List.Subset.refl _, Scalar.isNumber_limit (hn f hf)⟩

theorem LogCovers.append {log log' more more' : List (Finding α)} (h : LogCovers log' log)
    (hmore : LogCovers more' more) : LogCovers (log' ++ more') (log ++ more) := by
  intro f hf
  rcases List.mem_append.mp hf with hf | hf
  · obtain ⟨f', hf', hcovers⟩ := h f hf
    exact ⟨f', List.mem_append_left _ hf', hcovers⟩
  · obtain ⟨f', hf', hcovers⟩ := hmore f hf
    exact ⟨f', List.mem_append_right _ hf', hcovers⟩

-- A group that says all that another one says.
structure Group.Covers (g' g : Group α) : Prop where
  key_eq : g'.key = g.key
  sites_subset : g.occurrences.map Occurrence.site ⊆ g'.occurrences.map Occurrence.site
  similarity_le : Scalar.le g.similarity g'.similarity = true

-- What is shown of a log is shown of a log that says as much.
theorem Registry.exists_cover [OrderedScalar α] {log log' : List (Finding α)}
    (hn : ∀ f ∈ log, Scalar.isNumber f.similarity) (hn' : ∀ f ∈ log', Scalar.isNumber f.similarity)
    (hcovers : LogCovers log' log) {category : Category} {g : Group α}
    (hg : g ∈ (empty.recordAll log).view category) :
    ∃ g' ∈ (empty.recordAll log').view category, g'.Covers g := by
  obtain ⟨hgroup, hduplicate⟩ := (mem_view_iff _ _ _).mp hg
  obtain ⟨-, htells⟩ := (agrees_recordAll log hn).tells category g hgroup
  have hcovered : ∀ f ∈ ofKey g.key (ofCategory category log),
      ∃ f' ∈ ofKey g.key (ofCategory category log'), f'.Covers f := by
    intro f hf
    obtain ⟨hf, hcategory, hkey⟩ := mem_ofKey_ofCategory_iff.mp hf
    obtain ⟨f', hf', hcover⟩ := hcovers f hf
    exact ⟨f', mem_ofKey_ofCategory_iff.mpr
      ⟨hf', hcover.category_eq.trans hcategory, hcover.key_eq.trans hkey⟩, hcover⟩
  obtain ⟨f, hf, hsimilarity⟩ := htells.similarity_mem
  obtain ⟨f', hf', hcover⟩ := hcovered f hf
  obtain ⟨hmem, hcategory, hsame⟩ := mem_ofKey_ofCategory_iff.mp hf'
  obtain ⟨g', hg', hkey, htells'⟩ := exists_group hn' hmem
  rw [hcategory] at hg' htells'
  rw [hsame] at hkey htells'
  have hsites : g.occurrences.map Occurrence.site ⊆ g'.occurrences.map Occurrence.site := by
    intro site hsite
    obtain ⟨x, hx, hsite⟩ := (htells.site_mem_iff site).mp hsite
    obtain ⟨x', hx', hcover⟩ := hcovered x hx
    exact (htells'.site_mem_iff site).mpr ⟨x', hx', hcover.sites_subset hsite⟩
  obtain ⟨s, hs, t, ht, hne⟩ := exists_sites_of_isDuplicate htells.nodup_sites hduplicate
  refine ⟨g', (mem_view_iff _ _ _).mpr ⟨hg', isDuplicate_of_sites hne (hsites hs) (hsites ht)⟩,
    hkey, hsites, ?_⟩
  rw [hsimilarity]
  exact OrderedScalar.le_trans _ _ _ hcover.similarity_le (htells'.le_similarity f' hf')

-- Two groups that say the same: one key, the same places in whatever order, and equal scores.
structure Group.Same (g g' : Group α) : Prop where
  key_eq : g.key = g'.key
  site_mem_iff (site : Files.Steps × Locator) :
    site ∈ g.occurrences.map Occurrence.site ↔ site ∈ g'.occurrences.map Occurrence.site
  similarity_same : Scalar.same g.similarity g'.similarity = true

-- Two logs that say all of one another are shown alike.
theorem Registry.exists_same [OrderedScalar α] {log log' : List (Finding α)}
    (hn : ∀ f ∈ log, Scalar.isNumber f.similarity) (hn' : ∀ f ∈ log', Scalar.isNumber f.similarity)
    (hcovers : LogCovers log' log) (hcovers' : LogCovers log log') {category : Category}
    {g : Group α} (hg : g ∈ (empty.recordAll log).view category) :
    ∃ g' ∈ (empty.recordAll log').view category, g.Same g' := by
  obtain ⟨g', hg', hcover⟩ := exists_cover hn hn' hcovers hg
  obtain ⟨h, hh, hback⟩ := exists_cover hn' hn hcovers' hg'
  -- there is one group for each key
  obtain rfl : h = g := by
    have hkeys := nodup_keys_view log category
    exact List.inj_on_of_nodup_map hkeys hh hg (hback.key_eq.trans hcover.key_eq)
  refine ⟨g', hg', hback.key_eq, fun site => ?_, ?_⟩
  · constructor
    · intro hsite
      exact hcover.sites_subset hsite
    · intro hsite
      exact hback.sites_subset hsite
  · rw [Scalar.same, hcover.similarity_le, hback.similarity_le]
    rfl

end Likeness.Duplicates
