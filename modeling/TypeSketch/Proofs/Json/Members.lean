import TypeSketch.Proofs.Json.Grammar

/-! Writing the members of an object one after the other gives them as they are merged: every key once,
where it came first, with the value that came last. -/
namespace TypeSketch.Members

private theorem get?_eq_none {members : Members} {name : String} (h : name ∉ keys members) : get? members name = none := by
  induction members with
  | nil => rfl
  | cons member rest ih =>
    simp only [keys_cons, List.mem_cons, not_or] at h
    rw [get?_cons, if_neg h.1, ih h.2]

/-- Members with distinct keys are the same if they have the same keys in the same order and the same values. -/
theorem ext_of_get? {a b : Members} (hk : keys a = keys b) (hd : (keys a).Nodup)
    (h : ∀ name, get? a name = get? b name) : a = b := by
  induction a generalizing b with
  | nil =>
    cases b with
    | nil => rfl
    | cons member b => cases hk
  | cons member a ih =>
    cases b with
    | nil => cases hk
    | cons other b =>
      simp only [keys_cons, List.cons.injEq] at hk
      simp only [keys_cons, List.nodup_cons] at hd
      have hm := h member.1
      simp only [get?_cons, if_true, hk.1, Option.some.injEq] at hm
      have hrest : a = b := by
        refine ih hk.2 hd.2 fun name => ?_
        by_cases hn : name = member.1
        · have ha : name ∉ keys a := hn ▸ hd.1
          rw [get?_eq_none ha, get?_eq_none (hk.2 ▸ ha)]
        · simpa only [get?_cons, hn, hk.1 ▸ hn, if_false] using h name
      rw [hrest, Prod.ext hk.1 hm]

private theorem keys_chosen {f : String → Option Json} {names : List String} (h : ∀ name ∈ names, (f name).isSome) :
    keys (names.filterMap fun key => (f key).map (key, ·)) = names := by
  induction names with
  | nil => rfl
  | cons name names ih =>
    rw [List.forall_mem_cons] at h
    obtain ⟨value, hv⟩ := Option.isSome_iff_exists.1 h.1
    simp only [List.filterMap_cons, hv, Option.map_some, keys_cons, ih h.2]

private theorem get?_chosen (f : String → Option Json) (names : List String) (name : String) :
    get? (names.filterMap fun key => (f key).map (key, ·)) name = if name ∈ names then f name else none := by
  induction names with
  | nil => rfl
  | cons first names ih =>
    rw [List.filterMap_cons]
    by_cases hn : name = first
    · subst hn
      cases hv : f name <;> simp [hv, ih]
    · cases hv : f first <;> simp [hn, ih]

private theorem mem_keys_iff {members : Members} {name : String} :
    name ∈ keys members ↔ (get? members name).isSome := by
  induction members with
  | nil => simp [keys, get?]
  | cons member rest ih =>
    by_cases hn : name = member.1 <;> simp [hn, ih]

private theorem keys_reverse (members : Members) : keys members.reverse = (keys members).reverse := List.map_reverse

/-- The keys of merged members are those that were written, each where it came first. -/
theorem keys_merged (written : Members) : keys (merged written) = (keys written).eraseDups := by
  apply keys_chosen
  intro name hn
  rw [List.mem_eraseDups, ← List.mem_reverse, ← keys_reverse] at hn
  exact mem_keys_iff.1 hn

/-- The value of a merged member is the last that was written. -/
theorem get?_merged (written : Members) (name : String) :
    get? (merged written) name = get? written.reverse name := by
  rw [merged, get?_chosen]
  split
  · rfl
  · rename_i hn
    rw [List.mem_eraseDups, ← List.mem_reverse, ← keys_reverse] at hn
    exact (get?_eq_none hn).symm

private theorem get?_eq_head? (members : Members) (name : String) :
    get? members name = (members.filter (·.1 = name)).head?.map Prod.snd := by
  induction members with
  | nil => rfl
  | cons member rest ih =>
    rw [get?_cons, ih]
    by_cases h : member.1 = name
    · simp [h]
    · simp [h, Ne.symm h]

/-- The value of a merged member is that of the last one that was written with its name. -/
theorem get?_merged_eq_getLast? (written : Members) (name : String) :
    get? (merged written) name = (written.filter (·.1 = name)).getLast?.map Prod.snd := by
  rw [get?_merged, get?_eq_head?, List.filter_reverse, List.head?_reverse]

/-- Where keys are distinct, every member is found under its key. -/
theorem get?_of_mem {members : Members} (h : (keys members).Nodup) {member : String × Json} (hm : member ∈ members) :
    get? members member.1 = some member.2 := by
  induction members with
  | nil => cases hm
  | cons first rest ih =>
    obtain ⟨hf, hr⟩ := List.nodup_cons.1 h
    rcases List.mem_cons.1 hm with rfl | hm
    · rw [get?_cons, if_pos rfl]
    · have hne : member.1 ≠ first.1 := by
        intro he
        exact hf (he ▸ List.mem_map_of_mem hm)
      rw [get?_cons, if_neg hne, ih hr hm]

private theorem eraseDups_snoc (names : List String) (name : String) :
    (names ++ [name]).eraseDups = if name ∈ names then names.eraseDups else names.eraseDups ++ [name] := by
  rw [List.eraseDups_append]
  by_cases h : name ∈ names <;> simp [List.removeAll, List.eraseDups_cons, h]

private theorem nodup_eraseDups (names : List String) : names.eraseDups.Nodup := by
  obtain ⟨back, rfl⟩ : ∃ back : List String, names = back.reverse := ⟨_, (List.reverse_reverse _).symm⟩
  induction back with
  | nil => exact .nil
  | cons name back ih =>
    rw [List.reverse_cons, eraseDups_snoc]
    split
    · exact ih
    · rename_i hn
      rw [List.nodup_append]
      refine ⟨ih, by simp, fun a ha b hb => ?_⟩
      rw [List.mem_singleton.1 hb]
      rintro rfl
      exact hn (List.mem_eraseDups.1 ha)

/-- Merged members have distinct keys. -/
theorem nodup_merged (written : Members) : (keys (merged written)).Nodup := by
  rw [keys_merged]
  exact nodup_eraseDups _

/-- Writing one member more puts it into those that were merged before. -/
theorem merged_append (written : Members) (key : String) (value : Json) :
    merged (written ++ [(key, value)]) = put key value (merged written) := by
  apply ext_of_get?
  · rw [keys_merged, keys_put, keys_merged, keys, List.map_append, List.map_singleton, eraseDups_snoc]
    simp only [List.mem_eraseDups, keys]
  · exact nodup_merged _
  · intro name
    rw [get?_merged, get?_put, get?_merged, List.reverse_append, List.reverse_singleton, List.singleton_append,
      get?_cons]

theorem merged_ne_nil {written : Members} (h : written ≠ []) : merged written ≠ [] := by
  intro hm
  have hk := keys_merged written
  cases written with
  | nil => exact h rfl
  | cons member rest =>
    rw [hm, keys_cons, List.eraseDups_cons] at hk
    cases hk

theorem put_ne_nil (members : Members) (key : String) (value : Json) : put key value members ≠ [] := by
  cases members with
  | nil => simp [put]
  | cons member rest =>
    rw [put]
    split <;> simp

private theorem put_of_notMem {members : Members} {key : String} (h : key ∉ keys members) (value : Json) :
    put key value members = members ++ [(key, value)] := by
  induction members with
  | nil => rfl
  | cons member rest ih =>
    simp only [keys_cons, List.mem_cons, not_or] at h
    rw [put, if_neg (Ne.symm h.1), ih h.2, List.cons_append]

/-- Members with distinct keys are merged already. -/
theorem merged_of_nodup {members : Members} (h : (keys members).Nodup) : merged members = members := by
  obtain ⟨back, rfl⟩ : ∃ back : Members, members = back.reverse := ⟨_, (List.reverse_reverse _).symm⟩
  induction back with
  | nil => rfl
  | cons member back ih =>
    rw [List.reverse_cons] at h ⊢
    rw [keys, List.map_append, List.map_singleton, List.nodup_append] at h
    have hk : member.1 ∉ keys back.reverse := fun hm => h.2.2 _ hm _ (List.mem_singleton_self _) rfl
    rw [merged_append, ih h.1, put_of_notMem hk]

/-- A merged member was written so. -/
theorem mem_of_mem_merged {written : Members} {member : String × Json} (h : member ∈ merged written) :
    member ∈ written := by
  rw [merged, List.mem_filterMap] at h
  obtain ⟨key, -, hl⟩ := h
  obtain ⟨value, hv, rfl⟩ := Option.map_eq_some_iff.1 hl
  obtain ⟨front, back, he, -⟩ := List.lookup_eq_some_iff.1 hv
  rw [← List.mem_reverse, he]
  simp

/-- The first member stays the first. -/
theorem head?_keys_merged (written : Members) : (keys (merged written)).head? = (keys written).head? := by
  rw [keys_merged]
  cases written with
  | nil => rfl
  | cons member written => rw [keys_cons, List.eraseDups_cons, List.head?_cons, List.head?_cons]

end TypeSketch.Members
