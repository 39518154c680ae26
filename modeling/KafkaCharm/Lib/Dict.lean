import Mathlib.Data.List.Nodup

namespace Dict

variable {κ ν : Type} [DecidableEq κ]

/-- `d.get(k)`. -/
def get? (d : List (κ × ν)) (k : κ) : Option ν := (d.find? (·.1 = k)).map Prod.snd

def keys (d : List (κ × ν)) : List κ := d.map Prod.fst

/-- `d[k] = v`. -/
def set : List (κ × ν) → κ → ν → List (κ × ν)
  | [], k, v => [(k, v)]
  | e :: d, k, v => if e.1 = k then (k, v) :: d else e :: set d k v

/-- `d.pop(k, None)`. -/
def erase (d : List (κ × ν)) (k : κ) : List (κ × ν) := d.filter (·.1 ≠ k)

variable {d : List (κ × ν)} {k k' : κ} {v : ν}

@[simp] theorem get?_nil : get? ([] : List (κ × ν)) k = none := rfl

theorem get?_cons (e : κ × ν) (d : List (κ × ν)) (k : κ) :
    get? (e :: d) k = if e.1 = k then some e.2 else get? d k := by
  by_cases h : e.1 = k
  · simp [get?, h]
  · simp [get?, h]

theorem get?_append (d d' : List (κ × ν)) (k : κ) :
    get? (d ++ d') k = (get? d k).or (get? d' k) := by
  induction d with
  | nil => simp
  | cons e d ih =>
    rw [List.cons_append, get?_cons, get?_cons, ih]
    by_cases h : e.1 = k
    · simp [h]
    · simp [h]

theorem get?_set : get? (set d k v) k' = if k = k' then some v else get? d k' := by
  induction d with
  | nil => simp [set, get?_cons]
  | cons e d ih =>
    by_cases he : e.1 = k
    · by_cases hk : k = k'
      · simp [set, he, get?_cons, hk]
      · simp [set, he, get?_cons, hk]
    · simp only [set, he, if_false, get?_cons, ih]
      by_cases hk : k = k'
      · have hne : e.1 ≠ k' := fun h => he (h.trans hk.symm)
        simp [hne, hk]
      · simp [hk]

/-- The values may be changed first. -/
theorem get?_map {ν' : Type} (f : ν → ν') (d : List (κ × ν)) (k : κ) :
    get? (d.map fun e => (e.1, f e.2)) k = (get? d k).map f := by
  induction d with
  | nil => rfl
  | cons e d ih =>
    rw [List.map_cons, get?_cons, get?_cons, ih]
    split <;> rfl

theorem map_set {ν' : Type} (f : ν → ν') (d : List (κ × ν)) (k : κ) (v : ν) :
    (set d k v).map (fun e => (e.1, f e.2)) = set (d.map fun e => (e.1, f e.2)) k (f v) := by
  induction d with
  | nil => rfl
  | cons e d ih =>
    simp only [set, List.map_cons]
    split
    · rfl
    · rw [List.map_cons, ih]

/-- What is left when entries go by their keys. -/
theorem get?_filter (p : κ → Bool) (d : List (κ × ν)) (k : κ) :
    get? (d.filter fun e => p e.1) k = if p k then get? d k else none := by
  induction d with
  | nil => simp
  | cons e d ih =>
    rw [List.filter_cons, get?_cons]
    by_cases he : e.1 = k
    · by_cases hp : p k
      · simp [he, hp, get?_cons]
      · simp [he, hp, ih]
    · by_cases hp : p e.1
      · simp [he, hp, get?_cons, ih]
      · simp [he, hp, ih]

theorem get?_erase : get? (erase d k) k' = if k = k' then none else get? d k' := by
  have hfilter := get?_filter (fun key => decide (key ≠ k)) d k'
  rw [erase, hfilter]
  by_cases h : k = k'
  · simp [h]
  · have hne : k' ≠ k := fun h' => h h'.symm
    simp [h, hne]

/-- Nothing goes with a key that is not there. -/
theorem erase_of_notMem (h : k ∉ keys d) : erase d k = d := by
  apply List.filter_eq_self.mpr
  intro e he
  have hne : e.1 ≠ k := fun heq => h (List.mem_map.mpr ⟨e, he, heq⟩)
  simpa using hne

theorem mem_keys_iff : k ∈ keys d ↔ get? d k ≠ none := by
  induction d with
  | nil => simp [keys]
  | cons e d ih =>
    have hcons : k ∈ keys (e :: d) ↔ k = e.1 ∨ k ∈ keys d := by simp [keys]
    rw [hcons, ih, get?_cons]
    by_cases he : e.1 = k
    · simp [he]
    · have hne : k ≠ e.1 := fun h => he h.symm
      simp [he, hne]

theorem mem_keys_set : k' ∈ keys (set d k v) ↔ k' = k ∨ k' ∈ keys d := by
  rw [mem_keys_iff, get?_set, mem_keys_iff]
  by_cases h : k = k'
  · simp [h]
  · have hne : k' ≠ k := fun h' => h h'.symm
    simp [h, hne]

theorem mem_keys_erase : k' ∈ keys (erase d k) ↔ k' ≠ k ∧ k' ∈ keys d := by
  rw [mem_keys_iff, get?_erase, mem_keys_iff]
  by_cases h : k = k'
  · simp [h]
  · have hne : k' ≠ k := fun h' => h h'.symm
    simp [h, hne]

/-- Every key stands once. -/
def NodupKeys (d : List (κ × ν)) : Prop := (keys d).Nodup

omit [DecidableEq κ] in
theorem NodupKeys.nil : NodupKeys ([] : List (κ × ν)) := List.nodup_nil

theorem NodupKeys.set (h : NodupKeys d) (k : κ) (v : ν) : NodupKeys (set d k v) := by
  induction d with
  | nil => simp [NodupKeys, keys, Dict.set]
  | cons e d ih =>
    simp only [NodupKeys, keys, List.map_cons, List.nodup_cons] at h
    by_cases he : e.1 = k
    · simp only [NodupKeys, keys, Dict.set, he, if_true, List.map_cons, List.nodup_cons]
      exact ⟨he ▸ h.1, h.2⟩
    · have hnot : e.1 ∉ keys (Dict.set d k v) := by
        rw [mem_keys_set, not_or]
        exact ⟨he, h.1⟩
      simp only [Dict.set, he, if_false]
      exact List.nodup_cons.mpr ⟨hnot, ih h.2⟩

theorem set_of_notMem (h : k ∉ keys d) (v : ν) : set d k v = d ++ [(k, v)] := by
  induction d with
  | nil => rfl
  | cons e d ih =>
    have hne : ¬ e.1 = k := fun heq => h (by simp [keys, heq])
    have hrest : k ∉ keys d := fun hmem => h (List.mem_cons_of_mem _ hmem)
    rw [set, if_neg hne, ih hrest, List.cons_append]

theorem NodupKeys.erase (h : NodupKeys d) (k : κ) : NodupKeys (erase d k) :=
  h.sublist (List.filter_sublist.map _)

theorem mem_iff_get? (h : NodupKeys d) : (k, v) ∈ d ↔ get? d k = some v := by
  induction d with
  | nil => simp
  | cons e d ih =>
    simp only [NodupKeys, keys, List.map_cons, List.nodup_cons] at h
    rw [List.mem_cons, ih h.2, get?_cons]
    by_cases he : e.1 = k
    · have hnone : get? d k = none := by
        by_contra hsome
        exact h.1 (he ▸ mem_keys_iff.mpr hsome)
      obtain ⟨e1, e2⟩ := e
      simp only at he
      simp [he, hnone, eq_comm]
    · have hne : (k, v) ≠ e := fun heq => he (heq ▸ rfl)
      simp [he, hne]

/-! ## Merging -/

/-- `d | d'`. -/
def update (d d' : List (κ × ν)) : List (κ × ν) := d'.foldl (fun d e => set d e.1 e.2) d

variable {d' : List (κ × ν)}

@[simp] theorem update_nil : update d [] = d := rfl

@[simp] theorem update_cons (e : κ × ν) : update d (e :: d') = update (set d e.1 e.2) d' := rfl

theorem map_update {ν' : Type} (f : ν → ν') (d d' : List (κ × ν)) :
    (update d d').map (fun e => (e.1, f e.2)) =
      update (d.map fun e => (e.1, f e.2)) (d'.map fun e => (e.1, f e.2)) := by
  induction d' generalizing d with
  | nil => rfl
  | cons e d' ih => rw [update_cons, ih, map_set, List.map_cons, update_cons]

theorem update_append (xs ys : List (κ × ν)) :
    update d (xs ++ ys) = update (update d xs) ys := List.foldl_append

theorem NodupKeys.of_cons {e : κ × ν} (h : NodupKeys (e :: d')) :
    get? d' e.1 = none ∧ NodupKeys d' := by
  obtain ⟨hnot, hrest⟩ := List.nodup_cons.mp h
  refine ⟨?_, hrest⟩
  by_contra hsome
  exact hnot (mem_keys_iff.mpr hsome)

/-- Entries of the second dictionary win. -/
theorem get?_update (h : NodupKeys d') : get? (update d d') k = (get? d' k).or (get? d k) := by
  induction d' generalizing d with
  | nil => simp
  | cons e d' ih =>
    obtain ⟨hfresh, hrest⟩ := h.of_cons
    rw [update_cons, ih hrest, get?_set, get?_cons]
    by_cases he : e.1 = k
    · subst he
      simp [hfresh]
    · simp [he]

/-- What holds of both dictionaries holds of all entries of their merge. -/
theorem get?_update_of_notMem (h : k ∉ keys d') : get? (update d d') k = get? d k := by
  induction d' generalizing d with
  | nil => rfl
  | cons e d' ih =>
    obtain ⟨hne, hrest⟩ := List.ne_and_not_mem_of_not_mem_cons h
    rw [update_cons, ih hrest, get?_set, if_neg (Ne.symm hne)]

theorem forall_mem_set {P : κ × ν → Prop} (h : ∀ e ∈ d, P e) (hset : P (k, v)) :
    ∀ e ∈ set d k v, P e := by
  induction d with
  | nil => simpa [set] using hset
  | cons e d ih =>
    obtain ⟨he, hrest⟩ := List.forall_mem_cons.mp h
    rw [set]
    split
    · exact List.forall_mem_cons.mpr ⟨hset, hrest⟩
    · exact List.forall_mem_cons.mpr ⟨he, ih hrest⟩

theorem forall_mem_update {P : κ × ν → Prop} (h : ∀ e ∈ d, P e) (h' : ∀ e ∈ d', P e) :
    ∀ e ∈ update d d', P e := by
  induction d' generalizing d with
  | nil => exact h
  | cons e d' ih =>
    obtain ⟨he, hrest⟩ := List.forall_mem_cons.mp h'
    exact ih (forall_mem_set h he) hrest

theorem mem_keys_update : k ∈ keys (update d d') ↔ k ∈ keys d ∨ k ∈ keys d' := by
  induction d' generalizing d with
  | nil => simp [keys]
  | cons e d' ih =>
    have hcons : k ∈ keys (e :: d') ↔ k = e.1 ∨ k ∈ keys d' := by simp [keys]
    rw [update_cons, ih, mem_keys_set, hcons]
    constructor
    · rintro ((h | h) | h)
      · exact .inr (.inl h)
      · exact .inl h
      · exact .inr (.inr h)
    · rintro (h | h | h)
      · exact .inl (.inr h)
      · exact .inl (.inl h)
      · exact .inr h

theorem NodupKeys.update (h : NodupKeys d) (d' : List (κ × ν)) : NodupKeys (update d d') := by
  induction d' generalizing d with
  | nil => exact h
  | cons e d' ih => exact ih (h.set e.1 e.2)

theorem set_of_get? (h : get? d k = some v) : set d k v = d := by
  induction d with
  | nil => simp at h
  | cons e d ih =>
    rw [get?_cons] at h
    rw [set]
    split
    case isTrue he =>
      rw [if_pos he] at h
      rw [← he, ← Option.some.inj h]
    case isFalse he =>
      rw [if_neg he] at h
      rw [ih h]

theorem update_of_get? (h : ∀ e ∈ d', get? d e.1 = some e.2) : update d d' = d := by
  induction d' with
  | nil => rfl
  | cons e d' ih =>
    obtain ⟨he, hrest⟩ := List.forall_mem_cons.mp h
    rw [update_cons, set_of_get? he, ih hrest]

/-- Merging the same entries again changes nothing, not even the order. -/
theorem update_update (h : NodupKeys d') : update (update d d') d' = update d d' := by
  apply update_of_get?
  rintro ⟨k, v⟩ he
  rw [get?_update h, (mem_iff_get? h).mp he, Option.some_or]

/-- A dictionary that is written into one without its keys is appended. -/
theorem update_of_notMem (h' : NodupKeys d') (h : ∀ k ∈ keys d', k ∉ keys d) :
    update d d' = d ++ d' := by
  induction d' generalizing d with
  | nil => simp
  | cons e d' ih =>
    obtain ⟨hnot, hrest⟩ := List.nodup_cons.mp h'
    have hfresh : e.1 ∉ keys d := h e.1 List.mem_cons_self
    rw [update_cons, set_of_notMem hfresh, ih hrest]
    · simp
    · have hkeys : keys (d ++ [(e.1, e.2)]) = keys d ++ [e.1] := by simp [keys]
      intro k hk hmem
      rw [hkeys] at hmem
      rcases List.mem_append.mp hmem with hold | hnew
      · exact h k (List.mem_cons_of_mem e.1 hk) hold
      · obtain rfl := List.mem_singleton.mp hnew
        exact hnot hk

end Dict
