import Mathlib.Data.Finset.Card
import Mathlib.Data.List.Induction

/-!
# Bounded keyed tables

A hash map seen as the list of its entries, in the order in which their keys
came in. A bounded table takes no new key once it is full.
-/

abbrev KeyedTable (κ α : Type) := List (κ × α)

namespace KeyedTable

variable {κ α κ' α' : Type} [DecidableEq κ] [DecidableEq κ']

def containsKey (t : KeyedTable κ α) (k : κ) : Bool := t.any fun e => e.1 = k

/-- `f` on the value of `k`, which starts as `fresh`. -/
def modifyEntry (t : KeyedTable κ α) (k : κ) (fresh : α) (f : α → α) : KeyedTable κ α :=
  if t.containsKey k then t.map fun e => if e.1 = k then (e.1, f e.2) else e
  else t ++ [(k, f fresh)]

def upsert (limit : Nat) (t : KeyedTable κ α) (k : κ) (fresh : α) (f : α → α) :
    KeyedTable κ α :=
  if !t.containsKey k && decide (limit ≤ t.length) then t else t.modifyEntry k fresh f

@[simp] theorem containsKey_map (ks : List κ) (v : κ → α) :
    containsKey (ks.map fun k => (k, v k)) k = decide (k ∈ ks) := by
  simp [containsKey, List.any_eq, eq_comm]

theorem upsert_of_mem {ks : List κ} (h : k ∈ ks) (v : κ → α) :
    upsert limit (ks.map fun k => (k, v k)) k fresh f =
      ks.map fun l => (l, if l = k then f (v l) else v l) := by
  simp only [upsert, modifyEntry, containsKey_map, h, decide_true, Bool.not_true,
    Bool.false_and, Bool.false_eq_true, if_false, if_true, List.map_map]
  refine List.map_congr_left fun l _ => ?_
  by_cases hl : l = k <;> simp [hl]

theorem upsert_of_lt {ks : List κ} (h : k ∉ ks) (hlt : ks.length < limit) (v : κ → α) :
    upsert limit (ks.map fun k => (k, v k)) k fresh f =
      (ks.map fun k => (k, v k)) ++ [(k, f fresh)] := by
  simp [upsert, modifyEntry, h, hlt]

theorem upsert_of_full {t : KeyedTable κ α} (h : t.containsKey k = false)
    (hle : limit ≤ t.length) : upsert limit t k fresh f = t := by
  simp [upsert, h, hle]

theorem mem_upsert {t : KeyedTable κ α} (h : e ∈ upsert limit t k fresh f) :
    e ∈ t ∨ ∃ v, (v = fresh ∨ (k, v) ∈ t) ∧ e = (k, f v) := by
  simp only [upsert, modifyEntry] at h
  split at h
  · exact .inl h
  split at h
  · obtain ⟨old, hold, rfl⟩ := List.mem_map.mp h
    by_cases hk : old.1 = k
    · rw [if_pos hk]
      exact .inr ⟨old.2, .inr (hk ▸ hold), by rw [hk]⟩
    · rw [if_neg hk]
      exact .inl hold
  · obtain hold | hnew := List.mem_append.mp h
    · exact .inl hold
    · exact .inr ⟨fresh, .inl rfl, List.mem_singleton.mp hnew⟩

-- ---------------------------------------------------------------------------
-- Other keys
-- ---------------------------------------------------------------------------

/-- The same entries under other keys, where the values may keep the old ones. -/
def rekey (embed : κ → κ') (lift : κ → α → α') (t : KeyedTable κ α) : KeyedTable κ' α' :=
  t.map fun e => (embed e.1, lift e.1 e.2)

variable (embed : κ → κ') (lift : κ → α → α')

omit [DecidableEq κ] [DecidableEq κ'] in
@[simp] theorem length_rekey (t : KeyedTable κ α) :
    (t.rekey embed lift).length = t.length := by
  simp [rekey]

theorem containsKey_rekey {t : KeyedTable κ α} (h : ∀ e ∈ t, embed e.1 = embed k → e.1 = k) :
    (t.rekey embed lift).containsKey (embed k) = t.containsKey k := by
  rw [Bool.eq_iff_iff]
  simp only [containsKey, rekey, List.any_map, Function.comp_def, List.any_eq_true,
    decide_eq_true_eq]
  constructor
  · rintro ⟨e, he, hk⟩
    exact ⟨e, he, h e he hk⟩
  · rintro ⟨e, he, hk⟩
    exact ⟨e, he, by rw [hk]⟩

/-- Keys that stay apart in the table may be replaced by what stands for them. -/
theorem upsert_rekey {t : KeyedTable κ α} {f' : α' → α'}
    (h : ∀ e ∈ t, embed e.1 = embed k → e.1 = k) (hf : ∀ v, f' (lift k v) = lift k (f v))
    (hfresh : f' fresh' = lift k (f fresh)) :
    upsert limit (t.rekey embed lift) (embed k) fresh' f' =
      (upsert limit t k fresh f).rekey embed lift := by
  have hmap : ∀ e ∈ t, (if embed e.1 = embed k then (embed e.1, f' (lift e.1 e.2))
      else (embed e.1, lift e.1 e.2)) =
      (embed (if e.1 = k then (e.1, f e.2) else e).1,
        lift (if e.1 = k then (e.1, f e.2) else e).1 (if e.1 = k then (e.1, f e.2) else e).2) := by
    intro e he
    by_cases hk : e.1 = k
    · simp [hk, hf]
    · simp [hk, mt (h e he) hk]
  simp only [upsert, modifyEntry, containsKey_rekey embed lift h, length_rekey]
  split
  · rfl
  · split
    · simpa only [rekey, List.map_map, Function.comp_def] using List.map_congr_left hmap
    · simp [rekey, hfresh]

def mapValues (g : α → α') (t : KeyedTable κ α) : KeyedTable κ α' :=
  t.map fun e => (e.1, g e.2)

omit [DecidableEq κ] in
@[simp] theorem length_mapValues (t : KeyedTable κ α) : (t.mapValues g).length = t.length := by
  simp [mapValues]

@[simp] theorem containsKey_mapValues (t : KeyedTable κ α) (g : α → α') :
    (t.mapValues g).containsKey k = t.containsKey k :=
  containsKey_rekey id (fun _ => g) fun _ _ h => h

theorem upsert_mapValues {t : KeyedTable κ α} {g : α → α'} (hf : ∀ v, f' (g v) = g (f v))
    (hfresh : f' fresh' = g (f fresh)) :
    upsert limit (t.mapValues g) k fresh' f' = (upsert limit t k fresh f).mapValues g :=
  upsert_rekey id (fun _ => g) (fun _ _ h => h) hf hfresh

-- ---------------------------------------------------------------------------
-- Histories
-- ---------------------------------------------------------------------------

/-- What happens to a table: a write to one key, or a pass over all values. -/
inductive Event (κ α : Type)
  | one (k : κ) (f : α → α)
  | all (g : α → α)

def apply (limit : Nat) (fresh : κ → α) (t : KeyedTable κ α) : Event κ α → KeyedTable κ α
  | .one k f => t.upsert limit k (fresh k) f
  | .all g => t.map fun e => (e.1, g e.2)

def replay (limit : Nat) (fresh : κ → α) (es : List (Event κ α)) : KeyedTable κ α :=
  es.foldl (apply limit fresh) []

def keysOf (es : List (Event κ α)) : List κ :=
  es.filterMap fun
    | .one k _ => some k
    | .all _ => none

def Event.on (k : κ) (v : α) : Event κ α → α
  | .one l f => if l = k then f v else v
  | .all g => g v

/-- What a history makes of the value of one key. -/
def valueOf (fresh : κ → α) (es : List (Event κ α)) (k : κ) : α :=
  es.foldl (Event.on k) (fresh k)

variable {fresh : κ → α} {es : List (Event κ α)}

theorem replay_concat :
    replay limit fresh (es ++ [e]) = apply limit fresh (replay limit fresh es) e := by
  simp [replay]

theorem valueOf_concat : valueOf fresh (es ++ [e]) k = e.on k (valueOf fresh es k) := by
  simp [valueOf]

omit [DecidableEq κ] in
theorem keysOf_concat_one : keysOf (es ++ [.one k f]) = keysOf es ++ [k] := by
  simp [keysOf]

omit [DecidableEq κ] in
theorem keysOf_concat_all : keysOf (es ++ [.all g]) = keysOf es := by
  simp [keysOf]

/-- Each key once, in the order in which they first came. -/
def distinct (ks : List κ) : List κ := ks.eraseDups

@[simp] theorem mem_distinct {ks : List κ} : k ∈ distinct ks ↔ k ∈ ks := List.mem_eraseDups

theorem distinct_concat (ks : List κ) :
    distinct (ks ++ [k]) = if k ∈ ks then distinct ks else distinct ks ++ [k] := by
  rw [distinct, distinct, List.eraseDups_append]
  by_cases h : k ∈ ks <;> simp [List.removeAll, h, List.eraseDups_cons]

theorem nodup_distinct (ks : List κ) : (distinct ks).Nodup := by
  induction ks using List.reverseRecOn with
  | nil => exact List.nodup_nil
  | append_singleton ks k ih =>
    rw [distinct_concat]
    split
    · exact ih
    · next hk =>
      exact ih.append (List.nodup_singleton k)
        (List.disjoint_singleton.mpr (mt mem_distinct.mp hk))

theorem distinct_append (ks ks' : List κ) :
    distinct (ks ++ ks') = distinct ks ++ distinct (ks'.removeAll ks) := List.eraseDups_append

/-- Later keys come after the old ones. -/
theorem mem_take_distinct_append {ks ks' : List κ} (hk : k ∈ ks) :
    k ∈ (distinct (ks ++ ks')).take n ↔ k ∈ (distinct ks).take n := by
  rw [distinct_append, List.take_append, List.mem_append, or_iff_left]
  intro hm
  have hnew := mem_distinct.mp (List.mem_of_mem_take hm)
  simp [List.removeAll, hk] at hnew

theorem length_distinct (ks : List κ) : (distinct ks).length = ks.toFinset.card := by
  rw [← List.toFinset_card_of_nodup (nodup_distinct ks)]
  exact congrArg Finset.card (Finset.ext fun k => by simp)

theorem length_distinct_map (ks : List κ) (f : κ → κ') :
    (distinct (ks.map f)).length = (ks.toFinset.image f).card := by
  rw [length_distinct]
  exact congrArg Finset.card (Finset.ext fun k => by simp)

theorem length_distinct_map_le (ks : List κ) (f : κ → κ') :
    (distinct (ks.map f)).length ≤ (distinct ks).length := by
  rw [length_distinct_map, length_distinct]
  exact Finset.card_image_le

/-- As many images as keys: no two keys have one image. -/
theorem injOn_of_length_distinct {ks : List κ} {f : κ → κ'}
    (h : (distinct (ks.map f)).length = (distinct ks).length) : Set.InjOn f {k | k ∈ ks} := by
  rw [length_distinct_map, length_distinct, Finset.card_image_iff, List.coe_toFinset] at h
  exact h

/-- A key that was never written to has a value that passes leave alone. -/
theorem valueOf_of_notMem (hg : ∀ g, .all g ∈ es → ∀ k, g (fresh k) = fresh k)
    (h : k ∉ keysOf es) : valueOf fresh es k = fresh k := by
  induction es using List.reverseRecOn with
  | nil => rfl
  | append_singleton es e ih =>
    have hg' : ∀ g, .all g ∈ es → ∀ k, g (fresh k) = fresh k :=
      fun g hm => hg g (List.mem_append_left _ hm)
    rw [valueOf_concat]
    cases e with
    | one l f =>
      rw [keysOf_concat_one, List.mem_append, List.mem_singleton, not_or] at h
      rw [ih hg' h.1]
      exact if_neg (Ne.symm h.2)
    | all g =>
      rw [keysOf_concat_all] at h
      rw [ih hg' h]
      exact hg g (by simp) k

/-- A bounded table holds the first `limit` keys written to, each with the
whole of its own history. -/
theorem replay_eq (hg : ∀ g, .all g ∈ es → ∀ k, g (fresh k) = fresh k) :
    replay limit fresh es =
      ((distinct (keysOf es)).take limit).map fun k => (k, valueOf fresh es k) := by
  induction es using List.reverseRecOn with
  | nil => simp [replay, keysOf, distinct]
  | append_singleton es e ih =>
    have hg' : ∀ g, .all g ∈ es → ∀ k, g (fresh k) = fresh k :=
      fun g hm => hg g (List.mem_append_left _ hm)
    rw [replay_concat, ih hg']
    cases e with
    | all g => simp [apply, keysOf_concat_all, valueOf_concat, Event.on, Function.comp_def]
    | one k f =>
      simp only [apply, keysOf_concat_one, distinct_concat, valueOf_concat, Event.on]
      generalize hd : distinct (keysOf es) = ds
      have hmem : k ∈ keysOf es ↔ k ∈ ds := by rw [← hd, mem_distinct]
      by_cases hk : k ∈ ds.take limit
      · -- an old key
        rw [upsert_of_mem hk, if_pos (hmem.mpr (List.mem_of_mem_take hk))]
        simp only [eq_comm]
      have hother : ∀ l ∈ ds.take limit,
          (l, valueOf fresh es l) =
            (l, if k = l then f (valueOf fresh es l) else valueOf fresh es l) := by
        intro l hl
        rw [if_neg]
        rintro rfl
        exact hk hl
      by_cases hlt : ds.length < limit
      · -- a new key
        have htake : ds.take limit = ds := List.take_of_length_le (by omega)
        rw [htake] at hk hother ⊢
        rw [upsert_of_lt hk hlt, if_neg (mt hmem.mp hk), List.take_of_length_le (by simp; omega),
          List.map_append, ← List.map_congr_left hother, List.map_singleton, if_pos rfl,
          valueOf_of_notMem hg' (mt hmem.mp hk)]
      · -- no room
        have hfull : limit ≤ ds.length := by omega
        have htake : (if k ∈ keysOf es then ds else ds ++ [k]).take limit = ds.take limit := by
          split
          · rfl
          · rw [List.take_append_of_le_length hfull]
        rw [htake, ← List.map_congr_left hother]
        exact upsert_of_full (by rw [containsKey_map, decide_eq_false hk]) (by simp [hfull])

end KeyedTable
