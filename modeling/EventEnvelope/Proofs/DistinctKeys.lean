import EventEnvelope.Document.Fields

/-! Maps whose keys are texts of distinct content. Building such a map entry by entry adds nothing
and merges nothing, and looking a text up finds the entry under it. -/

namespace EventEnvelope

section Keys

variable {α β : Type} {m : List (α × β)}

/-- Putting other values in place keeps the keys. -/
theorem map_fst_update {p : α × β → Prop} [DecidablePred p] {f : α × β → α × β}
    (kept : ∀ e, p e → (f e).1 = e.1) :
    (m.map fun e => if p e then f e else e).map Prod.fst = m.map Prod.fst := by
  rw [List.map_map]
  refine List.map_congr_left fun e _ => ?_
  simp only [Function.comp_apply]
  split
  · next h => exact kept e h
  · rfl

theorem nodup_map_fst_concat {k : α} {v : β} (distinct : (m.map Prod.fst).Nodup)
    (apart : ∀ e ∈ m, e.1 ≠ k) : ((m ++ [(k, v)]).map Prod.fst).Nodup := by
  simp only [List.map_append, List.map_cons, List.map_nil, List.nodup_append]
  refine ⟨distinct, by simp, ?_⟩
  intro a ha b hb equal
  obtain ⟨e, he, rfl⟩ := List.mem_map.mp ha
  exact apart e he (equal.trans (List.mem_singleton.mp hb))

end Keys

namespace Datum

@[simp] theorem same_text (s t : Text) : same (.text s) (.text t) = (s.content == t.content) := by
  simp [same, sameLeaf, quantity?]

theorem same_map (es fs : List (Datum × Datum)) :
    same (.map es) (.map fs) = (es.length = fs.length && entriesIn es fs) := by
  rw [same]

theorem eq_text_of_content? {d : Datum} {s : CodeText} (h : d.content? = some s) :
    ∃ t, d = .text t ∧ t.content = s := by
  cases d <;> simp only [content?, Option.some.injEq, reduceCtorEq] at h
  next t => exact ⟨t, rfl, h⟩

theorem mem_of_get? {es : List (Datum × Datum)} {name : String} {d : Datum}
    (h : get? es name = some d) : ∃ e ∈ es, e.2 = d := by
  obtain ⟨e, found, rfl⟩ := Option.map_eq_some_iff.mp h
  exact ⟨e, List.mem_of_find?_eq_some found, rfl⟩

theorem same_eq_false {a b : Datum} {s t : CodeText} (ha : a.content? = some s)
    (hb : b.content? = some t) (differ : s ≠ t) : same a b = false := by
  obtain ⟨a, rfl, rfl⟩ := eq_text_of_content? ha
  obtain ⟨b, rfl, rfl⟩ := eq_text_of_content? hb
  simpa using differ

/-- Entries under distinct texts. -/
structure DistinctTexts (es : List (Datum × Datum)) : Prop where
  texts : ∀ e ∈ es, e.1.content?.isSome
  distinct : (es.map fun e => e.1.content?).Nodup

namespace DistinctTexts

variable {m es : List (Datum × Datum)} {k v : Datum}

theorem nil : DistinctTexts [] := ⟨by simp, by simp⟩

theorem of_keys (h : DistinctTexts es) (keys : m.map Prod.fst = es.map Prod.fst) :
    DistinctTexts m where
  texts e he := by
    have : e.1 ∈ es.map Prod.fst := keys ▸ List.mem_map_of_mem he
    obtain ⟨e', he', same⟩ := List.mem_map.mp this
    exact same ▸ h.texts e' he'
  distinct := by
    have names (l : List (Datum × Datum)) :
        l.map (fun e => e.1.content?) = (l.map Prod.fst).map content? := by
      rw [List.map_map]
      rfl
    rw [names, keys, ← names]
    exact h.distinct

theorem insert_eq (h : DistinctTexts (m ++ (k, v) :: es)) : insert m k v = m ++ [(k, v)] := by
  have apart : m.any (fun e => same e.1 k) = false := by
    rw [List.any_eq_false]
    intro e he
    obtain ⟨s, hs⟩ := Option.isSome_iff_exists.mp (h.texts e (by simp [he]))
    obtain ⟨t, ht⟩ := Option.isSome_iff_exists.mp (h.texts (k, v) (by simp))
    have differ : s ≠ t := by
      rintro rfl
      have := h.distinct
      rw [List.map_append, List.nodup_append] at this
      exact this.2.2 _ (List.mem_map_of_mem he) _ (by simp) (hs.trans ht.symm)
    simp [same_eq_false hs ht differ]
  rw [insert, apart]
  rfl

/-- A key that is there keeps its place, and one that is not makes one more distinct text. -/
theorem inserted (h : DistinctTexts es) (text : k.content?.isSome) (v : Datum) :
    DistinctTexts (Datum.insert es k v) := by
  unfold Datum.insert
  split
  · exact h.of_keys (map_fst_update fun _ _ => rfl)
  · next apart =>
    have new : ∀ e ∈ es, e.1.content? ≠ k.content? := by
      intro e he equal
      obtain ⟨s, named⟩ := Option.isSome_iff_exists.mp text
      obtain ⟨t, inside, spelled⟩ := eq_text_of_content? (equal.trans named)
      obtain ⟨t', rfl, spelled'⟩ := eq_text_of_content? named
      refine apart (List.any_eq_true.mpr ⟨e, he, ?_⟩)
      rw [inside, same_text, spelled, spelled', beq_self_eq_true]
    constructor
    · intro e he
      rcases List.mem_append.mp he with he | he
      · exact h.texts e he
      · rw [List.mem_singleton.mp he]
        exact text
    · rw [List.map_append, List.nodup_append]
      refine ⟨h.distinct, by simp, ?_⟩
      intro a ha b hb equal
      obtain ⟨e, he, rfl⟩ := List.mem_map.mp ha
      exact new e he (equal.trans (List.mem_singleton.mp hb))

theorem foldl_insert (h : DistinctTexts (m ++ es)) :
    es.foldl (fun m e => insert m e.1 e.2) m = m ++ es := by
  induction es generalizing m with
  | nil => simp
  | cons e es ih =>
    rw [List.foldl_cons, insert_eq h, ih (by simpa using h)]
    simp

theorem ofEntries_eq (h : DistinctTexts es) : ofEntries es = es :=
  foldl_insert (m := []) h

end DistinctTexts

end Datum

theorem MetadataKey.id_injective {k k' : MetadataKey} (h : k.id = k'.id) : k = k' :=
  Option.some.inj ((ofId?_id k).symm.trans (h ▸ ofId?_id k'))

/-- A text names at most one member of the vocabulary. -/
theorem MetadataKey.eq_of_content? {d : Datum} {k k' : MetadataKey}
    (h : d.content? = some (.proper k.id)) (h' : d.content? = some (.proper k'.id)) : k = k' :=
  id_injective (CodeText.proper.inj (Option.some.inj (h.symm.trans h')))

namespace MetadataEntries

/-- Entries under distinct keys are kept as they are when a map is built of them. -/
theorem foldl_insert {m es : MetadataEntries} (h : ((m ++ es).map Prod.fst).Nodup) :
    es.foldl (fun m e => insert m e.1 e.2) m = m ++ es := by
  induction es generalizing m with
  | nil => simp
  | cons e es ih =>
    have apart : m.any (fun x => x.1 = e.1) = false := by
      rw [List.any_eq_false]
      intro x hx
      rw [List.map_append, List.nodup_append] at h
      have := h.2.2 _ (List.mem_map_of_mem hx) e.1 (by simp)
      simpa using this
    have added : insert m e.1 e.2 = m ++ [e] := by
      rw [insert, apart]
      rfl
    rw [List.foldl_cons, added, ih (by simpa using h)]
    simp

end MetadataEntries

end EventEnvelope
