import EventEnvelope.Proofs.DistinctKeys
import EventEnvelope.Proofs.Json.Value
import EventEnvelope.Proofs.Wire.Portable

/-! Values as JSON trees. A typed text travels under a tag and comes back typed, if it holds no pair
of surrogates; a map comes back as it is, unless its only key is a tag. -/

namespace EventEnvelope

namespace Json

/-- A tree as the JSON form of a value, and what a reader makes of it. -/
structure Renders (d : Datum) (j : Json) (d' : Datum) : Prop where
  tree : ofImage? (image d) = some j
  value : toDatum j = d'
  legible : j.isLegible = true

structure RendersAll (ds : List Datum) (js : List Json) (ds' : List Datum) : Prop where
  trees : ofImages? (images ds) = some js
  values : toData js = ds'
  legible : areLegible js = true

structure RendersEntries (es : List (Datum × Datum)) (ms : List (CodeText × Json))
    (es' : List (Datum × Datum)) : Prop where
  trees : ofImageEntries? (imageEntries es) = some ms
  values : toEntries ms = es'
  keys : (imageEntries es).map Prod.fst = es'.map Prod.fst
  legible : areMembersLegible ms = true

theorem untag_address (s : CodeText) : untag [(.plain addressTag, .plain s)] = .address ⟨s⟩ := by
  have tag : (Datum.plain addressTag).content? = some (.proper addressTag) := rfl
  rw [untag, if_pos tag]
  rfl

theorem untag_symbol (s : CodeText) : untag [(.plain symbolTag, .plain s)] = .symbol ⟨s⟩ := by
  have apart : (Datum.plain symbolTag).content? ≠ some (.proper addressTag) := by decide
  have tag : (Datum.plain symbolTag).content? = some (.proper symbolTag) := rfl
  rw [untag, if_neg apart, if_pos tag]
  rfl

theorem untag_eq_map {es : List (Datum × Datum)}
    (apart : ∀ e ∈ es, e.1.content? ≠ some (.proper addressTag) ∧
      e.1.content? ≠ some (.proper symbolTag)) :
    untag es = .map es := by
  unfold untag
  split
  · next k v =>
    have tags := apart (k, v) (by simp)
    rw [if_neg tags.1, if_neg tags.2]
  · rfl

theorem renders_null : Renders .null null .null := ⟨rfl, rfl, rfl⟩

theorem renders_flag (b : Bool) : Renders (.flag b) (flag b) (.flag b) := ⟨rfl, rfl, rfl⟩

theorem renders_number (n : Int) : Renders (.number n) (integer n) (.number n) := ⟨rfl, rfl, rfl⟩

theorem renders_plain {d : Datum} {s : CodeText} (name : image d = .plain s)
    (unpaired : s.isUnpaired = true) : Renders d (text s) (.plain s) where
  tree := by rw [name]; rfl
  value := rfl
  legible := unpaired

theorem legible_tagged (tag : String) {s : CodeText} (unpaired : s.isUnpaired = true) :
    (object [(.proper tag, text s)]).isLegible = true := by
  simp only [isLegible, areMembersLegible, CodeText.isUnpaired_proper, unpaired, Bool.and_self]

theorem renders_address {a : Address} (unpaired : a.text.isUnpaired = true) :
    Renders (.address a) (object [(.proper addressTag, text a.text)]) (.address a) where
  tree := rfl
  value := untag_address a.text
  legible := legible_tagged addressTag unpaired

theorem renders_symbol {s : Symbol} (unpaired : s.text.isUnpaired = true) :
    Renders (.symbol s) (object [(.proper symbolTag, text s.text)]) (.symbol s) where
  tree := rfl
  value := untag_symbol s.text
  legible := legible_tagged symbolTag unpaired

/-- A value that comes back from its JSON form as it was. -/
def Keeps (d : Datum) : Prop := ∃ j, Renders d j d

/-- Nothing and typed values come back as they were, but for texts with pairs of surrogates. -/
theorem keeps_settled {d : Datum} (h : d.IsSettled)
    (unpaired : d.content?.all CodeText.isUnpaired = true) : Keeps d := by
  rcases h with rfl | ⟨v, rfl⟩
  · exact ⟨_, renders_null⟩
  · cases v with
    | flag b => exact ⟨_, renders_flag b⟩
    | number n => exact ⟨_, renders_number n⟩
    | symbol s => exact ⟨_, renders_symbol unpaired⟩
    | address a => exact ⟨_, renders_address unpaired⟩

theorem rendersAll_nil : RendersAll [] [] [] := ⟨rfl, rfl, rfl⟩

theorem RendersAll.cons {d d' : Datum} {ds ds' : List Datum} {j : Json} {js : List Json}
    (first : Renders d j d') (rest : RendersAll ds js ds') :
    RendersAll (d :: ds) (j :: js) (d' :: ds') where
  trees := by rw [images, ofImages?, first.tree, rest.trees]
  values := by rw [toData, first.value, rest.values]
  legible := by rw [areLegible, first.legible, rest.legible]; rfl

theorem rendersAll_keeps {ds : List Datum} (h : ∀ d ∈ ds, Keeps d) : ∃ js, RendersAll ds js ds := by
  induction ds with
  | nil => exact ⟨[], rendersAll_nil⟩
  | cons d ds ih =>
    obtain ⟨j, first⟩ := h d (by simp)
    obtain ⟨js, rest⟩ := ih fun d' hd => h d' (by simp [hd])
    exact ⟨j :: js, rest.cons first⟩

theorem Renders.tuple {ds ds' : List Datum} {js : List Json} (parts : RendersAll ds js ds') :
    Renders (.tuple ds) (array js) (.list ds') where
  tree := by rw [image, ofImage?, parts.trees]; rfl
  value := by rw [toDatum, parts.values]
  legible := parts.legible

theorem Renders.list {ds ds' : List Datum} {js : List Json} (parts : RendersAll ds js ds') :
    Renders (.list ds) (array js) (.list ds') where
  tree := by rw [image, ofImage?, parts.trees]; rfl
  value := by rw [toDatum, parts.values]
  legible := parts.legible

theorem rendersEntries_nil : RendersEntries [] [] [] := ⟨rfl, rfl, rfl, rfl⟩

theorem RendersEntries.cons {k d d' : Datum} {s : CodeText} {es es' : List (Datum × Datum)}
    {j : Json} {ms : List (CodeText × Json)} (name : image k = .plain s)
    (unpaired : s.isUnpaired = true) (first : Renders d j d') (rest : RendersEntries es ms es') :
    RendersEntries ((k, d) :: es) ((s, j) :: ms) ((.plain s, d') :: es') := by
  refine ⟨?_, ?_, ?_, ?_⟩
  · rw [imageEntries, name, ofImageEntries?, first.tree, rest.trees]
    rfl
  · rw [toEntries, first.value, rest.values]
  · rw [imageEntries, name, List.map_cons, rest.keys]
    rfl
  · rw [areMembersLegible, unpaired, first.legible, rest.legible]
    rfl

theorem RendersEntries.named {d d' : Datum} {es es' : List (Datum × Datum)} {j : Json}
    {ms : List (CodeText × Json)} (name : String) (first : Renders d j d')
    (rest : RendersEntries es ms es') :
    RendersEntries ((.plain name, d) :: es) ((.proper name, j) :: ms) ((.plain name, d') :: es') :=
  rest.cons rfl (CodeText.isUnpaired_proper name) first

/-- A map comes back as it is unless it counts as a tagged value. -/
theorem Renders.map {es es' : List (Datum × Datum)} {ms : List (CodeText × Json)}
    (parts : RendersEntries es ms es') (keys : Datum.DistinctTexts es')
    (untagged : untag es' = .map es') : Renders (.map es) (object ms) (.map es') where
  tree := by
    rw [image, (keys.of_keys parts.keys).ofEntries_eq, ofImage?, parts.trees]
    rfl
  value := by
    rw [toDatum, parts.values, keys.ofEntries_eq, untagged]
  legible := parts.legible

end Json

end EventEnvelope
